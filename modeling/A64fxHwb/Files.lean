/-
The open files, and what is left once all of them are closed.

A process uses the driver through files it has opened or inherited, and the kernel
calls close once for each that was opened, in whichever thread of the process drops
the last reference. A mapping goes away when its own thread closes, or when its last
blade is freed, so it is left when the last file of its process is closed by another
thread, and when the process never had a file of its own, only a descriptor of
another's. A window that a reassignment overwrote outlives everything but a reset. In
the runs without the three, nothing is left.
-/
import A64fxHwb.Isolation
import A64fxHwb.Outcome

set_option autoImplicit false

namespace A64fxHwb

open BitWord Relation Runs

variable {hw : Machine} {l : Load hw} {R : hwb_regs → Prop}
variable {d : a64fx_hwb_device} {s s' : Kernel} {e : Event hw}

/-! ## Open files as a history -/

/-- The open files after the event, each by the thread group of its process. -/
def Event.files (e : Event hw) (files : List ℕ) : List ℕ :=
  match e.request with
  | .open => e.call.task.tgid :: files
  | .close => files.erase e.call.task.tgid
  | .ioctl _ => files

/-- The driver with a record of the open files. -/
def opened (l : Load hw) (R : hwb_regs → Prop) :
    TransitionSystem (Kernel × List ℕ) (Event hw) :=
  (driver l R).withHistory [] fun _ e _ files => e.files files

/-- Nobody resets the device, and a close is the release of a file by the process that
opened it. Any other call may come from anybody: a descriptor can be inherited. -/
def Lawful (x : Kernel × List ℕ) (e : Event hw) : Prop :=
  e.request ≠ .ioctl .RESET ∧ (e.request = .close → e.call.task.tgid ∈ x.2)

/-- The event closes the last file of its process, while a mapping of the process
is linked that has another thread in it. -/
def Abandons (e : Event hw) (x : Kernel × List ℕ) : Prop :=
  e.request = .close ∧ e.call.task.tgid ∉ x.2.erase e.call.task.tgid ∧
    ∃ m, get_taskmap x.1.dev e.call.task = some m ∧ e.call.task.pid ≠ m.task.pid

/-- The event makes a mapping for a process that has no file open: the call comes
through a descriptor it has inherited. -/
def Strays (e : Event hw) (x : Kernel × List ℕ) : Prop :=
  Maps e x.1 ∧ e.call.task.tgid ∉ x.2

/-- The event leaves no mapping without a file and overwrites no window. -/
def Tidy (x : Kernel × List ℕ) (e : Event hw) : Prop :=
  Lawful x e ∧ ¬Abandons e x ∧ ¬Strays e x ∧ ¬Reassigns e x.1

/-! ## The count -/

/-- What an event does to the count of the open files. -/
theorem active_count_of_event (hi : Inv l s.dev) (hlock : s.locks = Locks.free)
    (hrange : e.CmgInRange) (hreset : e.request ≠ .ioctl .RESET) {reply : Reply}
    (h : handle e s = .ok (reply, s')) :
    s'.dev.active_count =
      match e.request with
      | .open => s.dev.active_count + 1
      | .close => if s.dev.active_count > 0 then s.dev.active_count - 1 else s.dev.active_count
      | .ioctl _ => s.dev.active_count := by
  cases he : e.request with
  | «open» =>
      unfold handle oss_a64fx_hwb_open at h
      simp only [he, spin_lock_dev_free hlock, Loops.ok_bind, spin_unlock_dev_held] at h
      cases h
      rfl
  | close =>
      obtain ⟨t, hclose, -, -, -, hcount, -⟩ := close_spec (c := e.call) (fun _ => True) hi hlock
        trivial fun _ _ _ _ _ => Or.inr trivial
      unfold handle at h
      rw [he, hclose] at h
      cases h
      exact hcount
  | ioctl ioc =>
      obtain ⟨hpath, -⟩ := handle_path hi hlock hrange h
      refine hpath.preserves (P := fun t => t.dev.active_count = s.dev.active_count) ?_ rfl
      intro t t' ht hm
      rw [← ht]
      apply hm.active_count
      · rintro (hopen | hclose)
        · rw [he] at hopen
          cases hopen
        · rw [he] at hclose
          cases hclose
      · exact hreset

/-- **`active_count` counts the open files.** -/
theorem active_count_eq {x : Kernel × List ℕ}
    (h : (opened l R).ReachableVia Lawful x) : x.1.dev.active_count = x.2.length := by
  refine h.invariant (P := fun x => x.1.dev.active_count = x.2.length) ?_ ?_
  · rintro ⟨s, files⟩ ⟨⟨regs, -, hload⟩, rfl⟩
    show s.dev.active_count = 0
    rw [hload.spec.1]
    exact (loaded_empty hload.packed).2.2.1
  · rintro ⟨s, files⟩ e ⟨s', files'⟩ hreach hcount hlawful ⟨⟨hrange, reply, hok⟩, hfiles⟩
    obtain ⟨hi, hlock⟩ := reachable_inv hreach.forget
    have hact := active_count_of_event hi hlock hrange hlawful.1 hok
    change files' = e.files files at hfiles
    change s.dev.active_count = files.length at hcount
    show s'.dev.active_count = files'.length
    rw [hact, hfiles, hcount]
    unfold Event.files
    cases he : e.request with
    | «open» => simp
    | close =>
        -- the closing process has a file open, so the count is not zero
        have hmem : e.call.task.tgid ∈ files := hlawful.2 he
        have hpos := List.length_pos_of_mem hmem
        have hlen := List.length_erase_of_mem hmem
        simp only [hlen]
        rw [if_pos (by exact_mod_cast hpos)]
        omega
    | ioctl ioc => rfl

/-- A close finds the count above zero. -/
theorem active_count_pos {x : Kernel × List ℕ} (h : (opened l R).ReachableVia Lawful x)
    (hlawful : Lawful x e) (he : e.request = .close) : x.1.dev.active_count > 0 := by
  have hmem := List.length_pos_of_mem (hlawful.2 he)
  have hcount := active_count_eq h
  omega

/-! ## The mappings -/

/-- After a close that counts, the caller's mapping is gone if the caller is the
thread in it. -/
theorem mapping_of_close (hi : Inv l s.dev) (hlock : s.locks = Locks.free)
    (he : e.request = .close) (hcount : s.dev.active_count > 0) {reply : Reply}
    (h : handle e s = .ok (reply, s')) {m : a64fx_task_mapping} :
    m ∈ s'.dev.task_list ↔
      m ∈ s.dev.task_list ∧ ¬(m.group = e.call.task.tgid ∧ e.call.task.pid = m.task.pid) := by
  obtain ⟨t, hclose, -, -, -, -, hlist⟩ := close_spec (c := e.call) (fun _ => True) hi hlock
    trivial fun _ _ _ _ _ => Or.inr trivial
  unfold handle at h
  rw [he, hclose] at h
  cases h
  rw [hlist]
  by_cases hown : ∃ m ∈ s.dev.task_list, m.group = e.call.task.tgid ∧ e.call.task.pid = m.task.pid
  · rw [if_pos ⟨hcount, hown⟩, Keyed.mem_erase hi.lists.groups]
    obtain ⟨m₀, hm₀, hg₀, hpid₀⟩ := hown
    refine and_congr_right fun hm => not_congr ⟨fun hg => ⟨hg, ?_⟩, And.left⟩
    rw [Keyed.eq_of_key hi.lists.groups hm hm₀ (hg.trans hg₀.symm)]
    exact hpid₀
  · rw [if_neg fun h => hown h.2]
    exact ⟨fun hm => ⟨hm, fun hmine => hown ⟨m, hm, hmine⟩⟩, And.left⟩

/-- **Every mapping is that of a process that has the device open.** -/
theorem tasks_open {x : Kernel × List ℕ}
    (h : (opened l R).ReachableVia Tidy x) : ∀ t ∈ x.1.dev.tasks, t.tgid ∈ x.2 := by
  refine h.invariant (P := fun x => ∀ t ∈ x.1.dev.tasks, t.tgid ∈ x.2) ?_ ?_
  · rintro ⟨s, files⟩ ⟨⟨regs, -, hload⟩, -⟩ t ht
    rw [hload.tasks] at ht
    cases ht
  · rintro ⟨s, files⟩ e ⟨s', files'⟩ hreach htasks ⟨hlawful, hkeep, hstray, -⟩ ⟨hstep, hfiles⟩ t ht
    have hdriver : (driver l R).Reachable s := hreach.forget
    obtain ⟨hi, hlock⟩ := reachable_inv hdriver
    change files' = e.files files at hfiles
    change ∀ t ∈ s.dev.tasks, t.tgid ∈ files at htasks
    show t.tgid ∈ files'
    rw [hfiles]
    unfold Event.files
    have hsource := tasks_of_step hdriver hstep ht
    obtain ⟨-, reply, hok⟩ := hstep
    cases he : e.request with
    | «open» =>
        rcases hsource with ⟨rfl, -⟩ | ht
        · exact List.mem_cons_self
        · exact List.mem_cons_of_mem _ (htasks t ht)
    | close =>
        have hpos := active_count_pos (hreach.mono fun _ _ h => h.1) hlawful he
        obtain ⟨m, hm, rfl⟩ := mem_tasks.mp ht
        obtain ⟨hm, hother⟩ := (mapping_of_close hi hlock he hpos hok).mp hm
        have hfile := htasks m.task (mem_tasks.mpr ⟨m, hm, rfl⟩)
        by_cases hg : m.task.tgid = e.call.task.tgid
        · -- the mapping is the closing process's own, so another file of it stays open
          rw [hg]
          by_contra hlast
          exact hkeep ⟨he, hlast, m, hi.lists.get_taskmap hm hg, fun hpid => hother ⟨hg, hpid⟩⟩
        · exact (List.mem_erase_of_ne hg).mpr hfile
    | ioctl ioc =>
        -- a new mapping is the caller's, and the caller has the device open
        rcases hsource with ⟨rfl, hmaps⟩ | ht
        · by_contra hnone
          exact hstray ⟨hmaps, hnone⟩
        · exact htasks t ht

/-! ## What is left -/

/-- Nothing that the driver hands out is taken. -/
structure Clean (l : Load hw) (d : a64fx_hwb_device) : Prop where
  task_list : d.task_list = []
  num_tasks : d.num_tasks = 0
  bb_active : ∀ c b, d.bb c b = false
  bw_map : ∀ k w, l.online.getLsbD k = true → d.bw (hw.cmg k) (hw.slot k) w = false

/-- With no mapping left, what is still taken is lost. -/
theorem Inv.clean (hi : Inv l d) (hcov : (windows l d).Covered) (hempty : d.task_list = []) :
    Clean l d := by
  have hnone : ∀ g a, ¬Held d g a := by
    rintro g a ⟨m, hm, -⟩
    rw [hempty] at hm
    cases hm
  refine ⟨hempty, ?_, fun c b => ?_, fun k w hk => ?_⟩
  · rw [hi.lists.num_tasks, hempty]
    rfl
  · apply Bool.eq_false_iff.mpr
    intro hbit
    obtain ⟨g, a, ha, -⟩ := hi.blades_covered (c.val, b) ⟨c, rfl, hbit⟩
    exact hnone g a ha
  · apply Bool.eq_false_iff.mpr
    intro hbit
    obtain ⟨p, g, a, ha, -⟩ := hcov (k, w) ⟨hk, hbit⟩
    exact hnone g a ha

/-- Nothing is left in the runs without the three leaks. -/
theorem clean_of_run {x : Kernel × List ℕ}
    (h : (opened l R).ReachableVia Tidy x) (hclosed : x.2 = []) : Clean l x.1.dev := by
  have hi := (reachable_inv (R := R) h.forget).1
  have hacc : WindowsAccounted l x.1.dev :=
    windowsAccounted_of_run (R := R) (h.of_withHistory fun _ _ htidy => htidy.2.2.2)
  apply hi.clean hacc.covered
  apply List.eq_nil_iff_forall_not_mem.mpr
  intro m hm
  have hfile := tasks_open h m.task (mem_tasks.mpr ⟨m, hm, rfl⟩)
  rw [hclosed] at hfile
  cases hfile

/-! ### Mappings without a file -/

/-- The process has a mapping and no file open. -/
def Orphaned (g : ℕ) (x : Kernel × List ℕ) : Prop :=
  g ∉ x.2 ∧ ∃ m ∈ x.1.dev.task_list, m.group = g

theorem Orphaned.not_clean {g : ℕ} {x : Kernel × List ℕ} (h : Orphaned g x) :
    ¬Clean l x.1.dev := by
  intro hclean
  obtain ⟨-, m, hm, -⟩ := h
  rw [hclean.task_list] at hm
  cases hm

/-- After the last close by another thread than the one in the mapping, -/
theorem orphaned_of_abandons {x y : Kernel × List ℕ}
    (h : (opened l R).ReachableVia Lawful x) (hstep : (opened l R).step x e y)
    (hlawful : Lawful x e) (hab : Abandons e x) : Orphaned e.call.task.tgid y := by
  obtain ⟨he, hlast, m, hget, hpid⟩ := hab
  obtain ⟨hi, hlock⟩ := reachable_inv (R := R) h.forget
  obtain ⟨⟨-, reply, hok⟩, hfiles⟩ := hstep
  have hpos := active_count_pos h hlawful he
  obtain ⟨hm, hg⟩ := mem_of_get_taskmap hget
  refine ⟨?_, m, ?_, hg⟩
  · change y.2 = e.files x.2 at hfiles
    rw [hfiles]
    unfold Event.files
    rw [he]
    exact hlast
  · apply (mapping_of_close hi hlock he hpos hok).mpr
    exact ⟨hm, fun hmine => hpid hmine.2⟩

/-- A BB_ALLOC that makes a mapping leaves it. -/
theorem mapping_of_maps (hi : Inv l s.dev) (hlock : s.locks = Locks.free) (hmaps : Maps e s)
    {reply : Reply} (h : handle e s = .ok (reply, s')) :
    ∃ m ∈ s'.dev.task_list, m.group = e.call.task.tgid := by
  obtain ⟨arg, ioc, mask, he, hread, hmask, hcheck, hget, hmem⟩ := hmaps
  obtain ⟨cmg, hcmg, -⟩ := accepted_of_check hi.table hcheck
  obtain ⟨m, t, hmap⟩ : ∃ m t, Mapped e.call s m t := ⟨_, _, .created hget hmem⟩
  rw [alloc_event_eq he hread hmask hcheck, hcmg, allocate_eq hi hlock cmg mask hmap] at h
  have hs' : s' = (allocate_outcome e.call cmg mask m t).2 :=
    (congrArg Prod.snd (Except.ok.inj h)).symm
  obtain ⟨hm, hg⟩ := hmap.mem
  -- with a blade, or without one
  have hcases : s' = t ∨ ∃ b, s' = allocated e.call m cmg b mask t := by
    rw [hs']
    unfold allocate_outcome
    simp only
    split_ifs
    · exact Or.inr ⟨_, rfl⟩
    · exact Or.inl rfl
    · exact Or.inl rfl
  rcases hcases with rfl | ⟨b, rfl⟩
  · exact ⟨m, hm, hg⟩
  · obtain ⟨m', hm', hg', -⟩ :=
      (held_hold_alloc (hmap.inv hi).lists hm rfl _ _).mpr (Or.inr ⟨rfl, rfl⟩)
    exact ⟨m', hm', hg'.trans hg⟩

/-- and after the first BB_ALLOC through a descriptor that was inherited, there is one, -/
theorem orphaned_of_strays {x y : Kernel × List ℕ} (h : (driver l R).Reachable x.1)
    (hstep : (opened l R).step x e y) (hstray : Strays e x) :
    Orphaned e.call.task.tgid y := by
  obtain ⟨hmaps, hnone⟩ := hstray
  obtain ⟨hi, hlock⟩ := reachable_inv h
  obtain ⟨⟨-, reply, hok⟩, hfiles⟩ := hstep
  refine ⟨?_, mapping_of_maps hi hlock hmaps hok⟩
  obtain ⟨arg, -, -, he, -⟩ := hmaps
  change y.2 = e.files x.2 at hfiles
  rw [hfiles]
  unfold Event.files
  rw [he]
  exact hnone

/-- One lawful step after the other, none of them by the process `g`. -/
def StaysAway (l : Load hw) (R : hwb_regs → Prop) (g : ℕ) :
    Kernel × List ℕ → Kernel × List ℕ → Prop :=
  ReflTransGen fun x y =>
    ∃ e, Lawful x e ∧ e.call.task.tgid ≠ g ∧ (opened l R).step x e y

/-- **and it stays**, as long as the process makes no call. -/
theorem Orphaned.stays {g : ℕ} {x y : Kernel × List ℕ} (hx : (driver l R).Reachable x.1)
    (h : Orphaned g x) (hpath : StaysAway l R g x y) : Orphaned g y := by
  have hboth := ReflTransGen.preserves
    (P := fun z : Kernel × List ℕ => (driver l R).Reachable z.1 ∧ Orphaned g z) ?_ hpath ⟨hx, h⟩
  · exact hboth.2
  · rintro z z' ⟨hz, hnone, m, hm, hg⟩ ⟨e, hlawful, hne, hstep, hfiles⟩
    have hz' : (driver l R).Reachable z'.1 := .step hz trivial hstep
    refine ⟨hz', ?_, ?_⟩
    · change z'.2 = e.files z.2 at hfiles
      rw [hfiles]
      unfold Event.files
      cases e.request with
      | «open» => exact fun hmem => (List.mem_cons.mp hmem).elim (fun h => hne h.symm) hnone
      | close => exact fun hmem => hnone (List.mem_of_mem_erase hmem)
      | ioctl ioc => exact hnone
    · -- the mapping of another group is out of reach
      have hkept := (kept_of_step hz hstep hlawful.1 hne.symm).mapping
      have hlook := Keyed.lookup_of_mem (reachable_inv hz).1.lists.groups hm
      rw [show a64fx_task_mapping.group m = g from hg, ← hkept] at hlook
      exact ⟨m, Keyed.lookup_mem hlook, hg⟩

/-! ### Windows that are lost -/

/-- One lawful step after the other. -/
def Continues (l : Load hw) (R : hwb_regs → Prop) : Kernel × List ℕ → Kernel × List ℕ → Prop :=
  ReflTransGen fun x y => ∃ e, Lawful x e ∧ (opened l R).step x e y

/-- A window that is lost stays lost over every event but a reset, -/
theorem lost_of_step (h : (driver l R).Reachable s)
    (hstep : (driver l R).step s e s') (hreset : e.request ≠ .ioctl .RESET) {r : ℕ × ℕ}
    (hl : (windows l s.dev).Lost r) : (windows l s'.dev).Lost r := by
  refine preserves_of_step (P := fun t => (windows l t.dev).Lost r) h hstep ?_ hl
  intro t t' hit hlost hm
  exact hm.lost hit hreset hlost

/-- and so over all that follows. -/
theorem lost_of_continues {x y : Kernel × List ℕ}
    (h : (driver l R).Reachable x.1) (hpath : Continues l R x y) {r : ℕ × ℕ}
    (hl : (windows l x.1.dev).Lost r) : (windows l y.1.dev).Lost r := by
  have hboth := ReflTransGen.preserves
    (P := fun z : Kernel × List ℕ => (driver l R).Reachable z.1 ∧ (windows l z.1.dev).Lost r)
    ?_ hpath ⟨h, hl⟩
  · exact hboth.2
  · rintro z z' ⟨hz, hlost⟩ ⟨e, hlawful, hstep, -⟩
    exact ⟨.step hz trivial hstep, lost_of_step hz hstep hlawful.1 hlost⟩

/-- A window that a reassignment overwrote is never given back. -/
theorem not_clean_of_reassigns {x y z : Kernel × List ℕ}
    (h : (driver l R).Reachable x.1) (hstep : (opened l R).step x e y) (hre : Reassigns e x.1)
    (hpath : Continues l R y z) : ¬Clean l z.1.dev := by
  obtain ⟨hi, hlock⟩ := reachable_inv h
  have hy : (driver l R).Reachable y.1 := .step h trivial hstep.1
  obtain ⟨⟨-, reply, hok⟩, -⟩ := hstep
  obtain ⟨m, hm, a, ha, w, hw4, w₀, hr₀, hbit, hs'⟩ := reassigns_taken hi hlock hok hre
  have hheld : Held x.1.dev m.group a := ⟨m, hm, rfl, ha⟩
  have hrep := (windows_take hi hheld hr₀.1 hr₀.2.1 hw4 hbit).2 w₀ hr₀
  -- lost right after the reassignment, and so at the end
  have hlost : (windows l y.1.dev).Lost (e.call.cpu, w₀) := by
    rw [hs']
    exact hrep.lost hi.windows_sound hi.windows_exclusive
  have hstill := lost_of_continues hy hpath hlost
  intro hclean
  have hclear := hclean.bw_map e.call.cpu w₀ hstill.1.1
  rw [hstill.1.2] at hclear
  exact Bool.noConfusion hclear

/-- **Nothing leaks once everybody has closed**, in the runs in which no mapping is left
without a file and no window is overwritten. Such a mapping is left until its process
calls again, and such a window for good. -/
theorem nothing_leaks :
    (∀ x, (opened l R).ReachableVia Tidy x → x.2 = [] → Clean l x.1.dev) ∧
      (∀ x e y z, (opened l R).ReachableVia Lawful x → Lawful x e → (opened l R).step x e y →
        Abandons e x ∨ Strays e x → StaysAway l R e.call.task.tgid y z → ¬Clean l z.1.dev) ∧
      ∀ x e y z, (opened l R).ReachableVia Lawful x → Lawful x e → (opened l R).step x e y →
        Reassigns e x.1 → Continues l R y z → ¬Clean l z.1.dev := by
  refine ⟨fun x h => clean_of_run h, ?_, ?_⟩
  · intro x e y z h hlawful hstep hleak hpath
    have hx : (driver l R).Reachable x.1 := h.forget
    have horphan : Orphaned e.call.task.tgid y := by
      rcases hleak with hab | hstray
      · exact orphaned_of_abandons h hstep hlawful hab
      · exact orphaned_of_strays hx hstep hstray
    exact (horphan.stays (.step hx trivial hstep.1) hpath).not_clean
  · intro x e y z h _ hstep hre hpath
    exact not_clean_of_reassigns h.forget hstep hre hpath

/-! ## Three ways to leave something -/

section Computing

variable {es : List (Event hw)} {files files' : List ℕ}

theorem opened_step_after (hok : succeeds l (es ++ [e]) = true) (hrange : e.cmg_in_range = true)
    (hfiles : files' = e.files files) :
    (opened l R).step (after l es, files) e (after l (es ++ [e]), files') :=
  ⟨step_after hok hrange, hfiles⟩

theorem opened_after {C : Kernel × List ℕ → Event hw → Prop}
    (h : (opened l R).ReachableVia C (after l es, files)) (hC : C (after l es, files) e)
    (hok : succeeds l (es ++ [e]) = true) (hrange : e.cmg_in_range = true)
    (hfiles : files' = e.files files) :
    (opened l R).ReachableVia C (after l (es ++ [e]), files') :=
  .step h hC (opened_step_after hok hrange hfiles)

end Computing

/-- A plain event of a process that has the device open, or opens it, is tidy. -/
theorem tidy_of_plain {x : Kernel × List ℕ} (hplain : e.plain = true)
    (hfile : e.request = .open ∨ e.call.task.tgid ∈ x.2) : Tidy x e := by
  have hclose : e.request ≠ .close := by
    intro hclose
    unfold Event.plain at hplain
    rw [hclose] at hplain
    cases hplain
  refine ⟨⟨not_makes_of_plain hplain x.1 .reset (by decide), fun h => absurd h hclose⟩,
    fun h => hclose h.1, ?_, not_makes_of_plain hplain x.1 .reassign (by decide)⟩
  rintro ⟨⟨arg, -, -, halloc, -⟩, hnone⟩
  rcases hfile with hopen | hfile
  · rw [halloc] at hopen
    cases hopen
  · exact hnone hfile

/-- The process opens the device, and its first thread gets a blade and a window. -/
def one_file : List (Event Quad.machine) :=
  [Quad.open Quad.first 0, Quad.alloc Quad.first 0 0x3, Quad.assign Quad.first 0 0 (-1)]

theorem one_file_tidy :
    (opened Quad.load fun _ => True).ReachableVia Tidy (after Quad.load one_file, [10]) := by
  have h0 : (opened Quad.load fun _ => True).ReachableVia Tidy (after Quad.load [], []) :=
    .init ⟨init_after trivial (by decide +kernel), rfl⟩
  have h1 := opened_after (e := Quad.open Quad.first 0) h0
    (tidy_of_plain (by decide) (Or.inl rfl)) (by decide +kernel) (by decide) rfl
  have h2 := opened_after (e := Quad.alloc Quad.first 0 0x3) h1
    (tidy_of_plain (by decide) (Or.inr (by decide))) (by decide +kernel) (by decide) rfl
  have h3 := opened_after (e := Quad.assign Quad.first 0 0 (-1)) h2
    (tidy_of_plain (by decide) (Or.inr (by decide))) (by decide +kernel) (by decide) rfl
  exact h3

/-- The only mapping is that of the first thread. -/
theorem one_file_task : ∀ m ∈ (after Quad.load one_file).dev.task_list, m.task = Quad.first := by
  decide +kernel

/-- The process opens the device, and a thread of another one gets a blade through the
descriptor it has inherited. -/
def inherited : List (Event Quad.machine) :=
  [Quad.open Quad.first 0, Quad.alloc Quad.other 0 0x3]

/-- The thread of the mapping closes, or the other thread does, or the first one closes
after it has overwritten its window, or after another process has got a blade through
the file. -/
theorem nothing_leaks_one_file :
    Clean Quad.load (after Quad.load (one_file ++ [Quad.close Quad.first 0])).dev ∧
    ¬Clean Quad.load (after Quad.load (one_file ++ [Quad.close Quad.second 0])).dev ∧
    ¬Clean Quad.load (after Quad.load
      ((one_file ++ [Quad.assign Quad.first 0 0 2]) ++ [Quad.close Quad.first 0])).dev ∧
    ¬Clean Quad.load (after Quad.load (inherited ++ [Quad.close Quad.first 0])).dev := by
  obtain ⟨hclean, horphan, hlost⟩ := nothing_leaks (l := Quad.load) (R := fun _ => True)
  have hlawful := one_file_tidy.mono fun _ _ htidy => htidy.1
  refine ⟨?_, ?_, ?_, ?_⟩
  · -- the thread of the mapping takes the mapping down
    have htidy : Tidy (after Quad.load one_file, [10]) (Quad.close Quad.first 0) := by
      refine ⟨⟨nofun, fun _ => by decide⟩, ?_, ?_, nofun⟩
      · rintro ⟨-, -, m, hm, hpid⟩
        rw [one_file_task m (mem_of_get_taskmap hm).1] at hpid
        exact hpid rfl
      · rintro ⟨⟨arg, -, -, halloc, -⟩, -⟩
        cases halloc
    have hclosed : (opened Quad.load fun _ => True).ReachableVia Tidy
        (after Quad.load (one_file ++ [Quad.close Quad.first 0]), []) :=
      opened_after one_file_tidy htidy (by decide +kernel) (by decide) rfl
    exact hclean _ hclosed rfl
  · have hclose : (opened Quad.load fun _ => True).step (after Quad.load one_file, [10])
        (Quad.close Quad.second 0)
        (after Quad.load (one_file ++ [Quad.close Quad.second 0]), []) :=
      opened_step_after (by decide +kernel) (by decide) rfl
    have hmapping : (get_taskmap (after Quad.load one_file).dev Quad.second).isSome = true := by
      decide +kernel
    obtain ⟨m, hm⟩ := Option.isSome_iff_exists.mp hmapping
    have habandons : Abandons (Quad.close Quad.second 0) (after Quad.load one_file, [10]) := by
      refine ⟨rfl, by decide, m, hm, ?_⟩
      rw [one_file_task m (mem_of_get_taskmap hm).1]
      decide
    exact horphan _ (Quad.close Quad.second 0) _ _ hlawful ⟨nofun, fun _ => by decide⟩ hclose
      (Or.inl habandons) .refl
  · have hassign : (opened Quad.load fun _ => True).step (after Quad.load one_file, [10])
        (Quad.assign Quad.first 0 0 2)
        (after Quad.load (one_file ++ [Quad.assign Quad.first 0 0 2]), [10]) :=
      opened_step_after (by decide +kernel) (by decide) rfl
    have hclose : (opened Quad.load fun _ => True).step
        (after Quad.load (one_file ++ [Quad.assign Quad.first 0 0 2]), [10])
        (Quad.close Quad.first 0)
        (after Quad.load ((one_file ++ [Quad.assign Quad.first 0 0 2]) ++
          [Quad.close Quad.first 0]), []) :=
      opened_step_after (by decide +kernel) (by decide) rfl
    refine hlost _ (Quad.assign Quad.first 0 0 2) _ _ hlawful ⟨nofun, nofun⟩ hassign ?_
      (ReflTransGen.single ⟨Quad.close Quad.first 0, ⟨nofun, fun _ => by decide⟩, hclose⟩)
    refine ⟨_, _, (get_taskmap _ _).get ?_, (get_allocation _ _ _).get ?_, rfl, rfl, ?_,
      (Option.some_get _).symm, (Option.some_get _).symm, ?_, ?_, ?_, 2, ?_, ?_, ?_⟩
    all_goals decide +kernel
  · have hloaded : (opened Quad.load fun _ => True).ReachableVia Lawful
        (after Quad.load [], []) := .init ⟨init_after trivial (by decide +kernel), rfl⟩
    have hopen : (opened Quad.load fun _ => True).ReachableVia Lawful
        (after Quad.load [Quad.open Quad.first 0], [10]) :=
      opened_after hloaded ⟨nofun, nofun⟩ (by decide +kernel) (by decide) rfl
    have halloc : (opened Quad.load fun _ => True).step
        (after Quad.load [Quad.open Quad.first 0], [10]) (Quad.alloc Quad.other 0 0x3)
        (after Quad.load ([Quad.open Quad.first 0] ++ [Quad.alloc Quad.other 0 0x3]), [10]) :=
      opened_step_after (by decide +kernel) (by decide) rfl
    have hclose : (opened Quad.load fun _ => True).step (after Quad.load inherited, [10])
        (Quad.close Quad.first 0)
        (after Quad.load (inherited ++ [Quad.close Quad.first 0]), []) :=
      opened_step_after (by decide +kernel) (by decide) rfl
    have hstrays : Strays (Quad.alloc Quad.other 0 0x3)
        (after Quad.load [Quad.open Quad.first 0], [10]) := by
      refine ⟨⟨_, _, _, rfl, rfl, rfl, ?_, ?_, rfl⟩, ?_⟩
      all_goals decide +kernel
    exact horphan _ (Quad.alloc Quad.other 0 0x3) _ _ hopen ⟨nofun, nofun⟩ halloc
      (Or.inr hstrays) (ReflTransGen.single
        ⟨Quad.close Quad.first 0, ⟨nofun, fun _ => by decide⟩, by decide, hclose⟩)

/-- The second thread closes the only file of its process, and the mapping stays. -/
theorem mapping_left_behind :
    (opened Quad.load fun _ => True).ReachableVia Lawful
      (after Quad.load (one_file ++ [Quad.close Quad.second 0]), []) ∧
    ¬Clean Quad.load (after Quad.load (one_file ++ [Quad.close Quad.second 0])).dev := by
  have hlawful := one_file_tidy.mono fun _ _ htidy => htidy.1
  have hclosed := opened_after (e := Quad.close Quad.second 0) hlawful
    ⟨nofun, fun _ => by decide⟩ (by decide +kernel) (by decide) rfl
  refine ⟨hclosed, fun hclean => ?_⟩
  have hempty := hclean.task_list
  revert hempty
  decide +kernel

end A64fxHwb
