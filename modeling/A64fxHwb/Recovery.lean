/-
Every state can be wound up.

Whatever the processes have done, short of a reset, opens and closes alone lead to a state in
which no file is open and nothing is held: the thread of a mapping opens the device and
closes it again, which takes the mapping down, and then every process closes what it has
open. No step of this can fail. What does not come back are the windows that were lost
before it began, and no other is lost on the way.

It takes the threads that are in the mappings. When one of them has exited, no open and
no close of another takes its mapping down.
-/
import A64fxHwb.Files
import A64fxHwb.Leak

set_option autoImplicit false

namespace A64fxHwb

open BitWord Relation Runs

variable {hw : Machine} {l : Load hw} {R : hwb_regs → Prop}
variable {x y : Kernel × List ℕ} {alive : task_struct → Prop} {m : a64fx_task_mapping}

/-! ## One open or close -/

/-- The thread is the one in the mapping. -/
def a64fx_task_mapping.IsOf (m : a64fx_task_mapping) (task : task_struct) : Prop :=
  m.group = task.tgid ∧ task.pid = m.task.pid

/-- A lawful open or close by a thread that is alive. -/
def Winds (l : Load hw) (R : hwb_regs → Prop) (alive : task_struct → Prop)
    (x y : Kernel × List ℕ) : Prop :=
  ∃ e : Event hw, (e.request = .open ∨ e.request = .close) ∧ alive e.call.task ∧ Lawful x e ∧
    (opened l R).step x e y

theorem Winds.reachable (h : Winds l R alive x y) (hx : (opened l R).ReachableVia Lawful x) :
    (opened l R).ReachableVia Lawful y := by
  obtain ⟨e, -, -, hlawful, hstep⟩ := h
  exact .step hx hlawful hstep

/-- It loses no window. -/
theorem Winds.lost_windows (h : Winds l R alive x y)
    (hx : (opened l R).ReachableVia Lawful x) {k : ℕ} (hk : l.online.getLsbD k = true) :
    lost_windows l y.1.dev k = lost_windows l x.1.dev k := by
  obtain ⟨e, he, -, hlawful, hstep, -⟩ := h
  have hs : (driver l R).Reachable x.1 := hx.forget
  refine lost_windows_of_other hs hstep hlawful.1 ?_ hk
  rintro ⟨arg, -, -, -, hassign, -⟩
  rcases he with he | he
  · rw [he] at hassign
    cases hassign
  · rw [he] at hassign
    cases hassign

/-- It takes down no mapping but that of its thread. -/
theorem Winds.keeps (h : Winds l R alive x y) (hx : (opened l R).ReachableVia Lawful x)
    (hm : m ∈ x.1.dev.task_list) (hgone : ∀ task, alive task → ¬m.IsOf task) :
    m ∈ y.1.dev.task_list := by
  obtain ⟨e, he, halive, hlawful, ⟨-, reply, hok⟩, -⟩ := h
  obtain ⟨hi, hlock⟩ := reachable_inv (R := R) hx.forget
  rcases he with he | he
  · unfold handle oss_a64fx_hwb_open at hok
    simp only [he, spin_lock_dev_free hlock, Loops.ok_bind, spin_unlock_dev_held] at hok
    have hy := congrArg Prod.snd (Except.ok.inj hok)
    simp only at hy
    rw [← hy]
    exact hm
  · exact (mapping_of_close hi hlock he (active_count_pos hx hlawful he) hok).mpr
      ⟨hm, hgone _ halive⟩

/-- A sequence of them reaches what a run reaches, and loses no window either. -/
theorem wound (h : ReflTransGen (Winds l R alive) x y)
    (hx : (opened l R).ReachableVia Lawful x) :
    (opened l R).ReachableVia Lawful y ∧ ∀ k, l.online.getLsbD k = true →
      lost_windows l y.1.dev k = lost_windows l x.1.dev k := by
  induction h with
  | refl => exact ⟨hx, fun _ _ => rfl⟩
  | tail _ hstep ih =>
      obtain ⟨hy, hlost⟩ := ih
      refine ⟨hstep.reachable hy, fun k hk => ?_⟩
      rw [hstep.lost_windows hy hk, hlost k hk]

/-! ## Opening and closing never fails -/

/-- The call `c`, made by another thread. -/
def Call.by_task (c : Call hw) (task : task_struct) : Call hw := { c with task := task }

/-- Any thread can open the device. -/
theorem can_open (c : Call hw) {task : task_struct} (halive : alive task)
    (hx : (opened l R).ReachableVia Lawful x) :
    ∃ y, Winds l R alive x y ∧ y.2 = task.tgid :: x.2 ∧ y.1.dev.task_list = x.1.dev.task_list := by
  obtain ⟨-, hlock⟩ := reachable_inv (R := R) hx.forget
  let e : Event hw := ⟨c.by_task task, .open⟩
  have hopen : ∃ s, handle e x.1 = .ok ({ err := 0 }, s) ∧
      s.dev.task_list = x.1.dev.task_list := by
    unfold handle oss_a64fx_hwb_open
    simp only [e, spin_lock_dev_free hlock, Loops.ok_bind, spin_unlock_dev_held]
    exact ⟨_, rfl, rfl⟩
  obtain ⟨s, hok, hlist⟩ := hopen
  have hstep : (opened l R).step x e (s, task.tgid :: x.2) := ⟨⟨nofun, _, hok⟩, rfl⟩
  exact ⟨(s, task.tgid :: x.2), ⟨e, Or.inl rfl, halive, ⟨nofun, nofun⟩, hstep⟩, rfl, hlist⟩

/-- A thread of a process that has it open can close it, and takes the mapping it is in with
it. -/
theorem can_close (c : Call hw) {task : task_struct} (halive : alive task)
    (hx : (opened l R).ReachableVia Lawful x) (hfile : task.tgid ∈ x.2) :
    ∃ y, Winds l R alive x y ∧ y.2 = x.2.erase task.tgid ∧
      ∀ m, m ∈ y.1.dev.task_list ↔ m ∈ x.1.dev.task_list ∧ ¬m.IsOf task := by
  obtain ⟨hi, hlock⟩ := reachable_inv (R := R) hx.forget
  let e : Event hw := ⟨c.by_task task, .close⟩
  have hlawful : Lawful x e := ⟨nofun, fun _ => hfile⟩
  obtain ⟨s, hclose, -⟩ := close_spec (c := e.call) (fun _ => True) hi hlock trivial
    fun _ _ _ _ _ => Or.inr trivial
  have hok : handle e x.1 = .ok ({ err := 0 }, s) := hclose
  have hstep : (opened l R).step x e (s, x.2.erase task.tgid) := ⟨⟨nofun, _, hok⟩, rfl⟩
  refine ⟨(s, x.2.erase task.tgid), ⟨e, Or.inr rfl, halive, hlawful, hstep⟩, rfl, fun m => ?_⟩
  exact mapping_of_close hi hlock rfl (active_count_pos hx hlawful rfl) hok

/-! ## Winding up -/

/-- The threads of the mappings open and close the device, one after the other. -/
theorem can_unmap (c : Call hw) (ms : List a64fx_task_mapping)
    (halive : ∀ m ∈ ms, ∃ task, alive task ∧ m.IsOf task)
    (hx : (opened l R).ReachableVia Lawful x) (hms : ∀ m ∈ x.1.dev.task_list, m ∈ ms) :
    ∃ y, ReflTransGen (Winds l R alive) x y ∧ y.2 = x.2 ∧ y.1.dev.task_list = [] := by
  induction ms generalizing x with
  | nil =>
      refine ⟨x, .refl, rfl, List.eq_nil_iff_forall_not_mem.mpr fun m hm => ?_⟩
      exact absurd (hms m hm) List.not_mem_nil
  | cons m ms ih =>
      obtain ⟨task, htask, hof⟩ := halive m List.mem_cons_self
      obtain ⟨x₁, h₁, hfiles₁, hlist₁⟩ := can_open c htask hx
      have hx₁ := h₁.reachable hx
      obtain ⟨x₂, h₂, hfiles₂, hlist₂⟩ := can_close c htask hx₁ (by rw [hfiles₁]; simp)
      have hrest : ∀ m' ∈ x₂.1.dev.task_list, m' ∈ ms := by
        intro m' hm'
        obtain ⟨hmem, hother⟩ := (hlist₂ m').mp hm'
        rw [hlist₁] at hmem
        refine (List.mem_cons.mp (hms m' hmem)).resolve_left ?_
        -- the mapping of the thread itself is gone
        rintro rfl
        exact hother hof
      obtain ⟨y, hy, hfiles, hlist⟩ :=
        ih (fun m' hm' => halive m' (List.mem_cons_of_mem _ hm')) (h₂.reachable hx₁) hrest
      refine ⟨y, .head h₁ (.head h₂ hy), ?_, hlist⟩
      rw [hfiles, hfiles₂, hfiles₁, List.erase_cons_head]

/-- Every process closes the files it has open. -/
theorem can_close_all (c : Call hw)
    (halive : ∀ g ∈ x.2, ∃ task, alive task ∧ task.tgid = g)
    (hx : (opened l R).ReachableVia Lawful x) (hlist : x.1.dev.task_list = []) :
    ∃ y, ReflTransGen (Winds l R alive) x y ∧ y.2 = [] ∧ y.1.dev.task_list = [] := by
  obtain ⟨s, files⟩ := x
  induction files generalizing s with
  | nil => exact ⟨(s, []), .refl, rfl, hlist⟩
  | cons g files ih =>
      obtain ⟨task, htask, rfl⟩ := halive g List.mem_cons_self
      obtain ⟨⟨s₁, files₁⟩, h₁, hfiles₁, hlist₁⟩ := can_close c htask hx List.mem_cons_self
      rw [List.erase_cons_head] at hfiles₁
      change files₁ = files at hfiles₁
      subst hfiles₁
      have hempty : s₁.dev.task_list = [] := by
        apply List.eq_nil_iff_forall_not_mem.mpr
        intro m hm
        have hold := ((hlist₁ m).mp hm).1
        rw [hlist] at hold
        cases hold
      obtain ⟨y, hy, hy'⟩ := ih s₁ (fun g' hg' => halive g' (List.mem_cons_of_mem _ hg'))
        (h₁.reachable hx) hempty
      exact ⟨y, .head h₁ hy, hy'⟩

theorem winds_up (c : Call hw) (htasks : ∀ m ∈ x.1.dev.task_list, ∃ task, alive task ∧ m.IsOf task)
    (hopen : ∀ g ∈ x.2, ∃ task, alive task ∧ task.tgid = g)
    (hx : (opened l R).ReachableVia Lawful x) :
    ∃ y, ReflTransGen (Winds l R alive) x y ∧ y.2 = [] ∧ y.1.dev.task_list = [] ∧
      y.1.dev.num_tasks = 0 ∧ y.1.dev.active_count = 0 ∧ (∀ cmg b, y.1.dev.bb cmg b = false) ∧
      ∀ k w, l.online.getLsbD k = true →
        (y.1.dev.bw (hw.cmg k) (hw.slot k) w = true ↔ w ∈ lost_windows l x.1.dev k) := by
  obtain ⟨x₁, h₁, hfiles₁, hlist₁⟩ := can_unmap c _ htasks hx fun _ hm => hm
  obtain ⟨y, h₂, hfiles, hlist⟩ :=
    can_close_all c (by rw [hfiles₁]; exact hopen) (wound h₁ hx).1 hlist₁
  have hpath := h₁.trans h₂
  obtain ⟨hy, hlost⟩ := wound hpath hx
  obtain ⟨hi, -⟩ := reachable_inv (R := R) hy.forget
  have hnone : ∀ g a, ¬Held y.1.dev g a := by
    rintro g a ⟨m, hm, -⟩
    rw [hlist] at hm
    cases hm
  refine ⟨y, hpath, hfiles, hlist, ?_, ?_, fun cmg b => ?_, fun k w hk => ?_⟩
  · rw [hi.lists.num_tasks, hlist]
    rfl
  · rw [active_count_eq hy, hfiles]
    rfl
  · apply Bool.eq_false_iff.mpr
    intro hbit
    obtain ⟨g, a, ha, -⟩ := hi.blades_covered (cmg.val, b) ⟨cmg, rfl, hbit⟩
    exact hnone g a ha
  · rw [← hlost k hk, mem_lost_windows hk]
    constructor
    · intro hbit
      refine ⟨hi.window_range k w hk hbit, ⟨hk, hbit⟩, ?_⟩
      rintro p ⟨g, a, ha, -⟩
      exact hnone g a ha
    · rintro ⟨-, hl⟩
      exact hl.1.2

/-- **Every state can be wound up**, while the threads of its mappings are alive. From any
state of a run without a reset, opens and closes alone lead to one with no file open, no
mapping and no blade taken, in which exactly those windows are taken that were lost in the
first. A mapping whose thread has exited is left in every state they lead to. -/
theorem every_state_winds_up (c : Call hw) (alive : task_struct → Prop)
    (hx : (opened l R).ReachableVia Lawful x) :
    ((∀ m ∈ x.1.dev.task_list, ∃ task, alive task ∧ m.IsOf task) →
      (∀ g ∈ x.2, ∃ task, alive task ∧ task.tgid = g) →
      ∃ y, ReflTransGen (Winds l R alive) x y ∧ y.2 = [] ∧ y.1.dev.task_list = [] ∧
        y.1.dev.num_tasks = 0 ∧ y.1.dev.active_count = 0 ∧ (∀ cmg b, y.1.dev.bb cmg b = false) ∧
        ∀ k w, l.online.getLsbD k = true →
          (y.1.dev.bw (hw.cmg k) (hw.slot k) w = true ↔ w ∈ lost_windows l x.1.dev k)) ∧
    ∀ m ∈ x.1.dev.task_list, (∀ task, alive task → ¬m.IsOf task) →
      ∀ y, ReflTransGen (Winds l R alive) x y → m ∈ y.1.dev.task_list := by
  refine ⟨fun htasks hopen => ?_, fun m hm hgone y hpath => ?_⟩
  · exact winds_up c htasks hopen hx
  · induction hpath with
    | refl => exact hm
    | tail hpath hstep ih => exact hstep.keeps (wound hpath hx).1 ih hgone

/-- The first thread overwrites its window, and the second one closes the only file. While
the first one lives the mapping can still be taken down, and window 0 is what stays; after
it has exited nobody can. -/
theorem every_state_winds_up_abandoned :
    (∃ y, ReflTransGen (Winds Quad.load (fun _ => True) fun task => task = Quad.first)
        (after Quad.load ((one_file ++ [Quad.assign Quad.first 0 0 2]) ++
          [Quad.close Quad.second 0]), []) y ∧
      y.2 = [] ∧ y.1.dev.task_list = [] ∧ ∀ w, (y.1.dev.bw 0 0 w = true ↔ w = 0)) ∧
    ∃ m ∈ (after Quad.load ((one_file ++ [Quad.assign Quad.first 0 0 2]) ++
        [Quad.close Quad.second 0])).dev.task_list,
      ∀ y, ReflTransGen (Winds Quad.load (fun _ => True) fun task => task.pid ≠ 10)
        (after Quad.load ((one_file ++ [Quad.assign Quad.first 0 0 2]) ++
          [Quad.close Quad.second 0]), []) y → m ∈ y.1.dev.task_list := by
  have h := one_file_tidy.mono fun _ _ htidy => htidy.1
  have h₁ := opened_after (e := Quad.assign Quad.first 0 0 2) h ⟨nofun, nofun⟩
    (by decide +kernel) (by decide) rfl
  have h₂ := opened_after (e := Quad.close Quad.second 0) h₁ ⟨nofun, fun _ => by decide⟩
    (by decide +kernel) (by decide) rfl
  have htask : ∀ m ∈ (after Quad.load ((one_file ++ [Quad.assign Quad.first 0 0 2]) ++
      [Quad.close Quad.second 0])).dev.task_list, m.task = Quad.first := by decide +kernel
  constructor
  · obtain ⟨hup, -⟩ := every_state_winds_up (Quad.call Quad.first 0) (· = Quad.first) h₂
    obtain ⟨y, hpath, hfiles, hlist, -, -, -, hbw⟩ := hup (fun m hm => by
      refine ⟨Quad.first, rfl, ?_, ?_⟩
      · rw [a64fx_task_mapping.group, htask m hm]
      · rw [htask m hm]) nofun
    refine ⟨y, hpath, hfiles, hlist, fun w => ?_⟩
    have hw0 := hbw 0 w (by decide)
    have hlost : lost_windows Quad.load (after Quad.load ((one_file ++
        [Quad.assign Quad.first 0 0 2]) ++ [Quad.close Quad.second 0])).dev 0 = {0} := by
      decide +kernel
    simp only [hlost, Finset.mem_singleton] at hw0
    exact hw0
  · obtain ⟨-, hleft⟩ := every_state_winds_up (Quad.call Quad.first 0) (·.pid ≠ 10) h₂
    have hsome : (after Quad.load ((one_file ++ [Quad.assign Quad.first 0 0 2]) ++
        [Quad.close Quad.second 0])).dev.task_list ≠ [] := by decide +kernel
    obtain ⟨m, hm⟩ := List.exists_mem_of_ne_nil _ hsome
    refine ⟨m, hm, hleft m hm fun task halive hof => halive ?_⟩
    rw [hof.2, htask m hm]
    rfl

end A64fxHwb
