/-
The count of the open files, with resets.

`active_count` goes up with every open and down with every close, but a reset
sets it to zero, and the files of every process stay open across a reset. The
count is exact in the runs in which no file is open when a reset is made; the
other resets leave a count of zero with files open. Who resets has the device
open, so with the driver's own tool every reset is one of these.
-/
import A64fxHwb.Files

set_option autoImplicit false

namespace A64fxHwb

open BitWord Relation Runs

variable {hw : Machine} {l : Load hw} {R : hwb_regs → Prop} {s s' : Kernel} {e : Event hw}

/-! ## The number of open files as a history -/

/-- The number of open files after the event. -/
def Event.count_files (e : Event hw) (n : ℕ) : ℕ :=
  match e.request with
  | .open => n + 1
  | .close => n - 1
  | .ioctl _ => n

/-- The driver with the number of open files. -/
def counted (l : Load hw) (R : hwb_regs → Prop) : TransitionSystem (Kernel × ℕ) (Event hw) :=
  (driver l R).withHistory 0 fun _ e _ n => e.count_files n

/-- A close is that of a file that is open. -/
def Matched (x : Kernel × ℕ) (e : Event hw) : Prop := e.request = .close → x.2 > 0

/-- The event resets the device while a file is open. -/
def ResetsOpen (x : Kernel × ℕ) (e : Event hw) : Prop := e.request = .ioctl .RESET ∧ x.2 > 0

/-- No close without an open file, no reset with one. -/
def KeepsCount (x : Kernel × ℕ) (e : Event hw) : Prop := Matched x e ∧ ¬ResetsOpen x e

/-- The close is counted, and made by the thread in the mapping of its group it
takes the mapping down and gives every blade of it back. -/
structure OwnerReleased (l : Load hw) (e : Event hw) (s s' : Kernel) : Prop where
  counted : s.dev.active_count > 0
  mapping : ∀ m, get_taskmap s.dev e.call.task = some m → e.call.task.pid = m.task.pid →
    get_taskmap s'.dev e.call.task = none
  blades : ∀ m, get_taskmap s.dev e.call.task = some m → e.call.task.pid = m.task.pid →
    ∀ a ∈ m.allocs, ∀ c : Fin MAX_NUM_CMG, c.val = a.cmg → s'.dev.bb c a.blade = false

/-! ## The count -/

/-- After a reset the count is zero. -/
theorem active_count_of_reset (hlock : s.locks = Locks.free) (he : e.request = .ioctl .RESET)
    {reply : Reply} (h : handle e s = .ok (reply, s')) : s'.dev.active_count = 0 := by
  unfold handle oss_a64fx_hwb_ioctl at h
  simp only [he, reset_eq hlock, Loops.ok_bind] at h
  cases h
  rfl

/-- **One event keeps the count exact**, but for a reset with a file open. -/
theorem count_of_event (hi : Inv l s.dev) (hlock : s.locks = Locks.free) (hrange : e.CmgInRange)
    {n : ℕ} (hcount : s.dev.active_count = n) (hkeeps : KeepsCount (s, n) e) {reply : Reply}
    (h : handle e s = .ok (reply, s')) : s'.dev.active_count = e.count_files n := by
  obtain ⟨hmatched, hnoreset⟩ := hkeeps
  by_cases hreset : e.request = .ioctl .RESET
  · -- no file is open, so zero is right
    have hzero : n = 0 := Nat.eq_zero_of_not_pos fun hpos => hnoreset ⟨hreset, hpos⟩
    rw [active_count_of_reset hlock hreset h, hzero, Event.count_files, hreset]
    rfl
  · rw [active_count_of_event hi hlock hrange hreset h, hcount]
    unfold Event.count_files
    cases he : e.request with
    | «open» => simp
    | close =>
        have hpos : n > 0 := hmatched he
        simp only
        rw [if_pos (by exact_mod_cast hpos)]
        omega
    | ioctl ioc => rfl

theorem active_count_of_run {x : Kernel × ℕ} (h : (counted l R).ReachableVia KeepsCount x) :
    x.1.dev.active_count = x.2 := by
  refine h.invariant (P := fun x => x.1.dev.active_count = x.2) ?_ ?_
  · rintro ⟨s, n⟩ ⟨⟨regs, -, hload⟩, rfl⟩
    show s.dev.active_count = 0
    rw [hload.spec.1]
    exact (loaded_empty hload.packed).2.2.1
  · rintro ⟨s, n⟩ e ⟨s', n'⟩ hreach hcount hkeeps ⟨⟨hrange, reply, hok⟩, hn⟩
    obtain ⟨hi, hlock⟩ := reachable_inv hreach.forget
    change n' = e.count_files n at hn
    show s'.dev.active_count = n'
    rw [hn]
    exact count_of_event hi hlock hrange hcount hkeeps hok

/-! ## What the count is for -/

/-- **A close that is counted releases the mapping of its thread.** -/
theorem ownerReleased_of_close (h : (driver l R).Reachable s) (hstep : (driver l R).step s e s')
    (he : e.request = .close) (hcount : s.dev.active_count > 0) : OwnerReleased l e s s' := by
  obtain ⟨hi, hlock⟩ := reachable_inv h
  have hi' := (reachable_inv (.step h trivial hstep)).1
  obtain ⟨-, reply, hok⟩ := hstep
  refine ⟨hcount, fun m hget hpid => ?_, fun m hget hpid a ha c hc => ?_⟩
  · obtain ⟨hm, hg⟩ := mem_of_get_taskmap hget
    rw [get_taskmap_eq_none]
    intro m' hm' hg'
    obtain ⟨hold, hother⟩ := (mapping_of_close hi hlock he hcount hok).mp hm'
    -- the group has one mapping only
    rw [Keyed.eq_of_key hi.lists.groups hold hm (hg'.trans hg.symm)] at hother
    exact hother ⟨hg, hpid⟩
  · obtain ⟨hm, hg⟩ := mem_of_get_taskmap hget
    apply Bool.eq_false_iff.mpr
    intro hbit
    -- who has the blade now had it before, and was the closing group
    obtain ⟨g, x, ⟨m', hm', hg', hx⟩, hp⟩ := hi'.blades_covered (c.val, a.blade) ⟨c, rfl, hbit⟩
    obtain ⟨hold, hother⟩ := (mapping_of_close hi hlock he hcount hok).mp hm'
    have hplace : x.place = a.place := hp.trans (Prod.ext hc rfl)
    have hgg := (hi.unique ⟨m', hold, hg', hx⟩ ⟨m, hm, rfl, ha⟩ hplace).1
    rw [Keyed.eq_of_key hi.lists.groups hold hm (hg'.trans hgg)] at hother
    exact hother ⟨hg, hpid⟩

/-- A reset with a file open leaves a count that is too low. -/
theorem count_wrong_of_reset {x y : Kernel × ℕ} (h : (driver l R).Reachable x.1)
    (hstep : (counted l R).step x e y) (hreset : ResetsOpen x e) :
    y.1.dev.active_count ≠ y.2 := by
  obtain ⟨-, hlock⟩ := reachable_inv h
  obtain ⟨⟨-, reply, hok⟩, hn⟩ := hstep
  obtain ⟨he, hpos⟩ := hreset
  have hsame : y.2 = x.2 := by
    rw [show y.2 = e.count_files x.2 from hn]
    unfold Event.count_files
    rw [he]
  rw [active_count_of_reset hlock he hok]
  omega

/-- **The open count is exact** in the runs without a reset while a file is open, and
each such reset ends it. -/
theorem open_count_exact :
    (∀ x, (counted l R).ReachableVia KeepsCount x → x.1.dev.active_count = x.2) ∧
      (∀ x e y, (counted l R).ReachableVia KeepsCount x → KeepsCount x e →
        (counted l R).step x e y → e.request = .close → OwnerReleased l e x.1 y.1) ∧
      ∀ x e y, (counted l R).ReachableVia Matched x → (counted l R).step x e y →
        ResetsOpen x e → y.1.dev.active_count ≠ y.2 := by
  refine ⟨fun x h => active_count_of_run h, fun x e y h hkeeps hstep he => ?_, ?_⟩
  · have hpos : x.2 > 0 := hkeeps.1 he
    have hcount := active_count_of_run h
    exact ownerReleased_of_close h.forget hstep.1 he (by omega)
  · intro x e y h hstep hreset
    exact count_wrong_of_reset h.forget hstep hreset

/-! ## A reset by a process that has the device open -/

section Computing

variable {es : List (Event hw)} {n n' : ℕ} {C : Kernel × ℕ → Event hw → Prop}

theorem counted_step_after (hok : succeeds l (es ++ [e]) = true) (hrange : e.cmg_in_range = true)
    (hn : n' = e.count_files n) :
    (counted l R).step (after l es, n) e (after l (es ++ [e]), n') :=
  ⟨step_after hok hrange, hn⟩

theorem counted_after (h : (counted l R).ReachableVia C (after l es, n))
    (hC : C (after l es, n) e) (hok : succeeds l (es ++ [e]) = true)
    (hrange : e.cmg_in_range = true) (hn : n' = e.count_files n) :
    (counted l R).ReachableVia C (after l (es ++ [e]), n') :=
  .step h hC (counted_step_after hok hrange hn)

end Computing

/-- One file is open, and its process has a blade. -/
def one_blade : List (Event Quad.machine) :=
  [Quad.open Quad.first 0, Quad.alloc Quad.first 0 0x3]

theorem one_blade_counted :
    (counted Quad.load fun _ => True).ReachableVia KeepsCount (after Quad.load one_blade, 1) := by
  have h0 : (counted Quad.load fun _ => True).ReachableVia KeepsCount (after Quad.load [], 0) :=
    .init ⟨init_after trivial (by decide +kernel), rfl⟩
  have h1 := counted_after (e := Quad.open Quad.first 0) h0 ⟨nofun, nofun⟩ (by decide +kernel)
    (by decide) rfl
  exact counted_after (e := Quad.alloc Quad.first 0 0x3) h1 ⟨nofun, nofun⟩ (by decide +kernel)
    (by decide) rfl

/-- The count before and after the owner's close, and after a reset instead. -/
theorem open_count_exact_one_blade :
    (after Quad.load one_blade).dev.active_count = 1 ∧
    OwnerReleased Quad.load (Quad.close Quad.first 0) (after Quad.load one_blade)
      (after Quad.load (one_blade ++ [Quad.close Quad.first 0])) ∧
    (after Quad.load (one_blade ++ [Quad.reset Quad.second 1])).dev.active_count ≠ 1 := by
  obtain ⟨hexact, hclose, hreset⟩ := open_count_exact (l := Quad.load) (R := fun _ => True)
  have hmatched := one_blade_counted.mono fun _ _ hkeeps => hkeeps.1
  refine ⟨hexact _ one_blade_counted, ?_, ?_⟩
  · refine hclose (after Quad.load one_blade, 1) (Quad.close Quad.first 0)
      (after Quad.load (one_blade ++ [Quad.close Quad.first 0]), 0) one_blade_counted
      ⟨fun _ => Nat.one_pos, nofun⟩ ?_ rfl
    exact counted_step_after (by decide +kernel) (by decide) rfl
  · refine hreset (after Quad.load one_blade, 1) (Quad.reset Quad.second 1)
      (after Quad.load (one_blade ++ [Quad.reset Quad.second 1]), 1) hmatched ?_
      ⟨rfl, Nat.one_pos⟩
    exact counted_step_after (by decide +kernel) (by decide) rfl

/-- The device is open in one process when another one opens it, resets it and
closes it again; a blade allocated after that survives the close of its owner. -/
def reset_while_open : List (Event Quad.machine) :=
  [Quad.open Quad.first 0, Quad.open Quad.other 1, Quad.reset Quad.other 1,
    Quad.close Quad.other 1, Quad.alloc Quad.first 0 0x3]

/-- Its count is zero with one file open, so the owner's close is taken for that of
a device nobody opened. -/
theorem reset_loses_close :
    (counted Quad.load fun _ => True).ReachableVia Matched (after Quad.load reset_while_open, 1) ∧
    (after Quad.load reset_while_open).dev.active_count = 0 ∧
    Matched (after Quad.load reset_while_open, 1) (Quad.close Quad.first 0) ∧
    (counted Quad.load fun _ => True).step (after Quad.load reset_while_open, 1)
      (Quad.close Quad.first 0)
      (after Quad.load (reset_while_open ++ [Quad.close Quad.first 0]), 0) ∧
    ¬OwnerReleased Quad.load (Quad.close Quad.first 0) (after Quad.load reset_while_open)
      (after Quad.load (reset_while_open ++ [Quad.close Quad.first 0])) := by
  have h0 : (counted Quad.load fun _ => True).ReachableVia Matched (after Quad.load [], 0) :=
    .init ⟨init_after trivial (by decide +kernel), rfl⟩
  have h1 := counted_after (e := Quad.open Quad.first 0) h0 nofun (by decide +kernel)
    (by decide) rfl
  have h2 := counted_after (e := Quad.open Quad.other 1) h1 nofun (by decide +kernel)
    (by decide) rfl
  have h3 := counted_after (e := Quad.reset Quad.other 1) h2 nofun (by decide +kernel)
    (by decide) rfl
  have h4 := counted_after (e := Quad.close Quad.other 1) h3 (fun _ => by decide)
    (by decide +kernel) (by decide) rfl
  have h5 := counted_after (e := Quad.alloc Quad.first 0 0x3) h4 nofun (by decide +kernel)
    (by decide) rfl
  have hzero : (after Quad.load reset_while_open).dev.active_count = 0 := by decide +kernel
  refine ⟨h5, hzero, fun _ => Nat.one_pos, ?_, fun hrel => ?_⟩
  · exact counted_step_after (by decide +kernel) (by decide) rfl
  · have hpos := hrel.counted
    rw [hzero] at hpos
    exact absurd hpos (lt_irrefl 0)

end A64fxHwb
