/-
The module load, step by step.

`misc_register` makes the device known before `oss_a64fx_hwb_init` has built anything
behind it, and what follows takes no lock, so a request may come between any two of its
steps. `loading` has every interleaving as a run; the one in which no request comes is
`oss_a64fx_hwb_init`.
-/
import A64fxHwb.Failure

set_option autoImplicit false

namespace A64fxHwb

open BitWord Runs

variable {hw : Machine} {l : Load hw} {R : hwb_regs → Prop} {e : Event hw} {s s' : Kernel}

/-! ## The steps -/

/-- How far `oss_a64fx_hwb_init` has come after its `misc_register`. -/
inductive Phase
  | registered
  /-- The CPUs that have not run `fill_pe_map` yet. -/
  | filling (cpus : List ℕ)
  /-- The CMGs the loop over `initialize_cmg` has not come to. -/
  | initializing (rest : List (Fin MAX_NUM_CMG))
  | loaded
  /-- An `initialize_cmg` has failed, before the loop came to `rest`. -/
  | failed (rest : List (Fin MAX_NUM_CMG))

/-- The CMGs that `initialize_cmg` has not been called for. -/
def Phase.todo : Phase → List (Fin MAX_NUM_CMG)
  | .registered => List.finRange MAX_NUM_CMG
  | .filling _ => List.finRange MAX_NUM_CMG
  | .initializing rest => rest
  | .loaded => []
  | .failed rest => rest

/-- A step of the load, or a request of a user process. -/
inductive LoadEvent (hw : Machine)
  | clear
  | fill (cpu : ℕ)
  | limits
  | initialize_cmg (i : Fin MAX_NUM_CMG)
  | enable
  | request (e : Event hw)

/-- An open, a close, or a request on blades and windows. -/
def Event.Arrives (e : Event hw) : Prop :=
  e.request = .open ∨ e.request = .close ∨ e.OnBlades

/-- **One step of an interleaving.** The CPUs run `fill_pe_map` in any order. Nothing
in a request reads what the loop over `oss_a64fx_hwb_ctrl_func` writes, which is one
step here. -/
inductive LoadStep (l : Load hw) : Kernel × Phase → LoadEvent hw → Kernel × Phase → Prop
  | clear {s : Kernel} (hfile : l.device_create_file = 0) :
      LoadStep l (s, .registered) .clear
        ({ s with dev := clear_pe_maps s.dev }, .filling (for_each_cpu l.online))
  | fill {s : Kernel} {cpus : List ℕ} {cpu : ℕ} {dev : a64fx_hwb_device} (hcpu : cpu ∈ cpus)
      (h : fill_pe_map hw s.dev cpu = .ok dev) :
      LoadStep l (s, .filling cpus) (.fill cpu) ({ s with dev := dev }, .filling (cpus.erase cpu))
  | limits {s : Kernel} :
      LoadStep l (s, .filling []) .limits
        ({ s with dev := init_limits s.dev }, .initializing (List.finRange MAX_NUM_CMG))
  | initialize_cmg {s s' : Kernel} {i : Fin MAX_NUM_CMG} {rest : List (Fin MAX_NUM_CMG)} {err : ℤ}
      (h : initialize_cmg l i s = .ok (err, s')) :
      LoadStep l (s, .initializing (i :: rest)) (.initialize_cmg i)
        (s', if err < 0 then .failed rest else .initializing rest)
  | enable {s : Kernel} :
      LoadStep l (s, .initializing []) .enable
        ({ s with regs := ((for_each_cpu l.online).foldl oss_a64fx_hwb_ctrl_func
          ({ el0ae := 1, el1ae := 1 }, s.regs)).2 }, .loaded)
  | request {s s' : Kernel} {p : Phase} {e : Event hw} {reply : Reply} (he : e.Arrives)
      (h : handle e s = .ok (reply, s')) : LoadStep l (s, p) (.request e) (s', p)

/-- The load, interleaved with requests, from registers in a state that satisfies `R`. -/
def loading (l : Load hw) (R : hwb_regs → Prop) :
    TransitionSystem (Kernel × Phase) (LoadEvent hw) where
  init x := l.misc_register = 0 ∧ ∃ regs, R regs ∧ x = (boot regs, .registered)
  step := LoadStep l

/-! ## The load alone -/

/-- The step is one of the load. -/
def LoadEvent.Own : LoadEvent hw → Prop
  | .request _ => False
  | _ => True

/-- The states the load reaches on its own. -/
def Alone (l : Load hw) (R : hwb_regs → Prop) (x : Kernel × Phase) : Prop :=
  (loading l R).ReachableVia (fun _ ev => ev.Own) x

theorem Alone.step {x y : Kernel × Phase} {ev : LoadEvent hw} (hx : Alone l R x)
    (hstep : LoadStep l x ev y) (hown : ev.Own) : Alone l R y :=
  TransitionSystem.ReachableVia.step hx hown hstep

theorem alone_fill {cpus : List ℕ} {dev : a64fx_hwb_device}
    (hx : Alone l R (s, .filling cpus)) (h : cpus.foldlM (fill_pe_map hw) s.dev = .ok dev) :
    Alone l R ({ s with dev := dev }, .filling []) := by
  induction cpus generalizing s with
  | nil =>
      cases h
      exact hx
  | cons cpu cpus ih =>
      rw [List.foldlM_cons, Loops.bind_eq_ok] at h
      obtain ⟨d, hfill, h⟩ := h
      have hstep : LoadStep l (s, .filling (cpu :: cpus)) (.fill cpu)
          ({ s with dev := d }, .filling ((cpu :: cpus).erase cpu)) :=
        .fill List.mem_cons_self hfill
      rw [List.erase_cons_head] at hstep
      exact ih (s := { s with dev := d }) (hx.step hstep trivial) h

theorem alone_initialize_cmgs {is : List (Fin MAX_NUM_CMG)} {err err' : ℤ} (h0 : 0 ≤ err)
    (hx : Alone l R (s, .initializing is)) (h : initialize_cmgs l is err s = .ok (err', s')) :
    ∃ p, Alone l R (s', p) ∧ (0 ≤ err' → p = .initializing []) := by
  induction is generalizing err s with
  | nil =>
      cases h
      exact ⟨_, hx, fun _ => rfl⟩
  | cons i is ih =>
      rw [initialize_cmgs, Loops.bind_eq_ok] at h
      obtain ⟨⟨err₁, t⟩, hone, h⟩ := h
      have hnext : Alone l R (t, if err₁ < 0 then .failed is else .initializing is) :=
        hx.step (.initialize_cmg hone) trivial
      simp only at h
      by_cases hneg : err₁ < 0
      · rw [if_pos hneg] at h hnext
        cases h
        exact ⟨_, hnext, fun hnonneg => absurd hneg (not_lt.mpr hnonneg)⟩
      · rw [if_neg hneg] at h hnext
        exact ih (not_lt.mp hneg) hnext h

/-- **`oss_a64fx_hwb_init` is the run in which no request comes.** -/
theorem alone_init {regs : hwb_regs} {err : ℤ} (hR : R regs) (hmisc : l.misc_register = 0)
    (hfile : l.device_create_file = 0) (h : oss_a64fx_hwb_init l (boot regs) = .ok (err, s)) :
    ∃ p, Alone l R (s, p) ∧ (0 ≤ err → p = .loaded) := by
  have hinit : Alone l R (boot regs, .registered) := .init ⟨hmisc, regs, hR, rfl⟩
  have hclear : Alone l R ({ boot regs with dev := clear_pe_maps (boot regs).dev },
      .filling (for_each_cpu l.online)) := hinit.step (.clear hfile) trivial
  unfold oss_a64fx_hwb_init at h
  rw [if_neg (not_not.mpr hmisc), if_neg (not_not.mpr hfile), Loops.bind_eq_ok] at h
  obtain ⟨dev, hfill, h⟩ := h
  have hfilled := alone_fill hclear hfill
  have hlimits : Alone l R ({ boot regs with dev := init_limits dev },
      .initializing (List.finRange MAX_NUM_CMG)) := hfilled.step .limits trivial
  rw [Loops.bind_eq_ok] at h
  obtain ⟨⟨err₁, t⟩, hloop, h⟩ := h
  obtain ⟨p, ht, hp⟩ := alone_initialize_cmgs le_rfl hlimits hloop
  simp only at h
  by_cases hneg : err₁ < 0
  · rw [if_pos hneg] at h
    cases h
    exact ⟨p, ht, fun hnonneg => absurd hneg (not_lt.mpr hnonneg)⟩
  · rw [if_neg hneg] at h
    cases h
    rw [hp (not_lt.mp hneg)] at ht
    exact ⟨.loaded, ht.step .enable trivial, fun _ => rfl⟩

/-! ## Computed interleavings -/

/-- `Event.Arrives` as a test. -/
def Event.arrives (e : Event hw) : Bool :=
  match e.request with
  | .open => true
  | .close => true
  | .ioctl (.BB_ALLOC _) => true
  | .ioctl (.BB_FREE _) => true
  | .ioctl (.BW_ASSIGN _) => true
  | .ioctl (.BW_UNASSIGN _) => true
  | _ => false

theorem Event.arrives_of_test (h : e.arrives = true) : e.Arrives := by
  unfold Event.arrives at h
  unfold Event.Arrives Event.OnBlades
  split at h
  · rename_i he
    exact Or.inl he
  · rename_i he
    exact Or.inr (Or.inl he)
  · rename_i arg he
    exact Or.inr (Or.inr (Or.inl ⟨arg, he⟩))
  · rename_i arg he
    exact Or.inr (Or.inr (Or.inr (Or.inl ⟨arg, he⟩)))
  · rename_i arg he
    exact Or.inr (Or.inr (Or.inr (Or.inr (Or.inl ⟨arg, he⟩))))
  · rename_i arg he
    exact Or.inr (Or.inr (Or.inr (Or.inr (Or.inr ⟨arg, he⟩))))
  · cases h

/-- The step of an event, if it can be taken. -/
def load_step (l : Load hw) : Kernel × Phase → LoadEvent hw → Option (Kernel × Phase)
  | (s, .registered), .clear =>
    if l.device_create_file = 0 then
      some ({ s with dev := clear_pe_maps s.dev }, .filling (for_each_cpu l.online))
    else none
  | (s, .filling cpus), .fill cpu =>
    if cpu ∈ cpus then
      match fill_pe_map hw s.dev cpu with
      | .ok dev => some ({ s with dev := dev }, .filling (cpus.erase cpu))
      | .error _ => none
    else none
  | (s, .filling []), .limits =>
    some ({ s with dev := init_limits s.dev }, .initializing (List.finRange MAX_NUM_CMG))
  | (s, .initializing (i :: rest)), .initialize_cmg i' =>
    if i' = i then
      match initialize_cmg l i s with
      | .ok (err, s) => some (s, if err < 0 then .failed rest else .initializing rest)
      | .error _ => none
    else none
  | (s, .initializing []), .enable =>
    some ({ s with regs := ((for_each_cpu l.online).foldl oss_a64fx_hwb_ctrl_func
      ({ el0ae := 1, el1ae := 1 }, s.regs)).2 }, .loaded)
  | (s, p), .request e =>
    if e.arrives then
      match handle e s with
      | .ok (_, s) => some (s, p)
      | .error _ => none
    else none
  | _, _ => none

theorem load_step_sound {x y : Kernel × Phase} {ev : LoadEvent hw}
    (h : load_step l x ev = some y) : LoadStep l x ev y := by
  unfold load_step at h
  split at h
  · split_ifs at h with hfile
    cases h
    exact .clear hfile
  · split_ifs at h with hcpu
    split at h
    · rename_i dev hfill
      cases h
      exact .fill hcpu hfill
    · cases h
  · cases h
    exact .limits
  · split_ifs at h with hi
    subst hi
    split at h
    · rename_i err t hinit
      cases h
      exact .initialize_cmg hinit
    · cases h
  · cases h
    exact .enable
  · split_ifs at h with he
    split at h
    · rename_i reply t hh
      cases h
      exact .request (Event.arrives_of_test he) hh
    · cases h
  · cases h

/-- The state the events lead to, from a load with cleared registers. -/
def load_run (l : Load hw) (evs : List (LoadEvent hw)) : Option (Kernel × Phase) :=
  evs.foldlM (load_step l) (boot hwb_regs.cleared, .registered)

/-- An interleaving that is computed is one of the transition system. -/
theorem reachableVia_load_run {C : Kernel × Phase → LoadEvent hw → Prop} {x : Kernel × Phase}
    {evs : List (LoadEvent hw)} (hR : R hwb_regs.cleared) (hmisc : l.misc_register = 0)
    (hC : ∀ ev ∈ evs, ∀ x, C x ev) (h : load_run l evs = some x) :
    (loading l R).ReachableVia C x := by
  induction evs using List.reverseRecOn generalizing x with
  | nil =>
      cases h
      exact .init ⟨hmisc, _, hR, rfl⟩
  | append_singleton evs ev ih =>
      unfold load_run at h
      rw [List.foldlM_append] at h
      obtain ⟨y, hrun, hstep⟩ := Option.bind_eq_some_iff.mp h
      rw [List.foldlM_cons] at hstep
      obtain ⟨z, hstep, hret⟩ := Option.bind_eq_some_iff.mp hstep
      cases hret
      have hy := ih (fun ev' hev' => hC ev' (List.mem_append_left _ hev')) hrun
      exact .step hy (hC ev (by simp) y) (load_step_sound hstep)

end A64fxHwb
