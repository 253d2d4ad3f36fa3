/-
Who allocated a blade, and who may release it.

The driver stores one thread for each group, the one whose BB_ALLOC created the
group's mapping, and compares its pid with the caller's when a blade is freed. So
BB_FREE takes this thread for the owner of all blades of the group, whichever
thread allocated them. The rule that only the allocating thread releases a blade
holds of a BB_FREE exactly when the two agree about the caller, or when it makes no
difference: the caller is of another group, or no CPU but its own is left. The
allocating thread itself must also be able to read the result: a copy back that fails
turns its success into an error.
-/
import A64fxHwb.Blades

set_option autoImplicit false

namespace A64fxHwb

open BitWord Runs

variable {hw : Machine} {l : Load hw} {c : Call hw} {R : hwb_regs → Prop}
variable {d : a64fx_hwb_device} {s s' : Kernel} {e : Event hw}

/-! ## The creators as a history -/

/-- Is the event a BB_ALLOC? -/
def Event.is_alloc (e : Event hw) : Bool :=
  match e.request with
  | .ioctl (.BB_ALLOC _) => true
  | _ => false

/-- The thread that allocated each blade: the caller of the BB_ALLOC by which it came
to be allocated. -/
def creators (s : Kernel) (e : Event hw) (s' : Kernel) (creator : ℕ × ℕ → Option task_struct)
    (p : ℕ × ℕ) : Option task_struct :=
  if e.is_alloc ∧ p ∈ s'.dev.places ∧ p ∉ s.dev.places then some e.call.task else creator p

/-- The driver with a record of the creators. -/
def created (l : Load hw) (R : hwb_regs → Prop) :
    TransitionSystem (Kernel × (ℕ × ℕ → Option task_struct)) (Event hw) :=
  (driver l R).withHistory (fun _ => none) creators

/-! ## Where a live allocation comes from -/

/-- A BB_ALLOC gives nothing back. -/
theorem not_releases_of_alloc (halloc : e.is_alloc = true) : ¬Releases e s := by
  unfold Event.is_alloc at halloc
  rintro (⟨m, cmg, a, ⟨arg, ioc, he, -⟩, -⟩ | ⟨he, -⟩ | ⟨he, -⟩)
  all_goals
    rw [he] at halloc
    cases halloc

/-- **A blade that is held after an event** was held by its group before, or the event
is the BB_ALLOC of the group that took it. -/
theorem place_of_step (h : (driver l R).Reachable s) (hstep : (driver l R).step s e s') {g : ℕ}
    {a : a64fx_task_allocation} (ha : Held s'.dev g a) :
    (∃ a₀, Held s.dev g a₀ ∧ a₀.place = a.place) ∨
      (e.is_alloc = true ∧ g = e.call.task.tgid ∧ a.place ∉ s.dev.places) := by
  have hi := (reachable_inv h).1
  have hboth := preserves_of_step (P := fun u =>
      (∀ g a, Held u.dev g a → (∃ a₀, Held s.dev g a₀ ∧ a₀.place = a.place) ∨
        (e.is_alloc = true ∧ g = e.call.task.tgid ∧ a.place ∉ s.dev.places)) ∧
      (e.is_alloc = true → ∀ cmg b, s.dev.bb cmg b = true → u.dev.bb cmg b = true)) h hstep ?_
    ⟨fun g a ha => Or.inl ⟨a, ha, rfl⟩, fun _ _ _ hbit => hbit⟩
  · exact hboth.1 g a ha
  · rintro u u' hiu ⟨hplaces, hbits⟩ hm
    refine ⟨fun g x hx => ?_, fun halloc cmg b hbit => ?_⟩
    · cases hm.held hiu hx with
      | kept _ hx => exact hplaces g x hx
      | made m cmg b mask hm' hg hb hmask hfree htake =>
          obtain ⟨arg, he⟩ := htake
          have halloc : e.is_alloc = true := by
            unfold Event.is_alloc
            rw [he]
          refine Or.inr ⟨halloc, hg, fun hmem => ?_⟩
          -- the blade would have been marked all along
          obtain ⟨hc, hbl⟩ := init_allocation_spec hiu.table cmg m hb mask
          obtain ⟨g₀, a₀, ha₀, hp⟩ := mem_places.mp hmem
          have hc₀ : a₀.cmg = cmg.val := (congrArg Prod.fst hp).trans hc
          have hb₀ : a₀.blade = b := (congrArg Prod.snd hp).trans hbl
          have hbit := hbits halloc cmg a₀.blade (hi.bb_of_held ha₀ hc₀)
          rw [hb₀, hfree] at hbit
          exact Bool.noConfusion hbit
      | took a k w hg ha => exact hplaces g a ha
      | gave a k w hg ha => exact hplaces g a ha
      | left a hg ha => exact hplaces g a ha
    · exact hm.bb_of_not_release hiu (not_releases_of_alloc halloc) (hbits halloc cmg b hbit)

/-- **Every live allocation was created by a thread of its group.** -/
theorem creator_of_held {x : Kernel × (ℕ × ℕ → Option task_struct)}
    (h : (created l R).Reachable x) :
    ∀ g a, Held x.1.dev g a → ∃ t, x.2 a.place = some t ∧ t.tgid = g := by
  refine h.invariant (P := fun x => ∀ g a, Held x.1.dev g a →
    ∃ t, x.2 a.place = some t ∧ t.tgid = g) ?_ ?_
  · rintro ⟨s, creator⟩ ⟨⟨regs, -, hload⟩, -⟩ g a ha
    rw [hload.spec.1] at ha
    exact absurd ha (not_held_loaded hload.packed g a)
  · rintro ⟨s, creator⟩ e ⟨s', creator'⟩ hreach hx - ⟨hstep, hcreator⟩ g a ha
    have hdriver : (driver l R).Reachable s := hreach.forget
    change creator' = creators s e s' creator at hcreator
    change Held s'.dev g a at ha
    show ∃ t, creator' a.place = some t ∧ t.tgid = g
    rw [hcreator]
    unfold creators
    have hnow : a.place ∈ s'.dev.places := mem_places.mpr ⟨g, a, ha, rfl⟩
    rcases place_of_step hdriver hstep ha with ⟨a₀, ha₀, hp⟩ | ⟨halloc, hg, hnew⟩
    · -- held before, so the record is the old one
      obtain ⟨t, ht, htg⟩ := hx g a₀ ha₀
      rw [if_neg fun hnew => hnew.2.2 (mem_places.mpr ⟨g, a₀, ha₀, hp⟩), ← hp]
      exact ⟨t, ht, htg⟩
    · rw [if_pos ⟨halloc, hnow, hnew⟩]
      exact ⟨e.call.task, rfl, hg.symm⟩

/-! ## Freeing a blade -/

variable {arg : UserArg fujitsu_hwb_ioc_bb_ctl}

/-- The event is a BB_FREE for the blade of `a`, with the argument `arg`. -/
def Frees (e : Event hw) (arg : UserArg fujitsu_hwb_ioc_bb_ctl) (a : a64fx_task_allocation) :
    Prop :=
  e.request = .ioctl (.BB_FREE arg) ∧
    ∃ ioc, arg.read = some ioc ∧ ioc.cmg.toNat = a.cmg ∧ ioc.bb.toNat = a.blade

/-- The rule for a BB_FREE of the blade that thread `t` allocated: the thread itself
releases it, another one of the group does not while a CPU other than its own is left,
and one of another group gets an error. -/
structure OwnerRule (t : task_struct) (a : a64fx_task_allocation) (c : Call hw) (s : Kernel)
    (err : ℤ) (s' : Kernel) : Prop where
  creator : c.task = t → err = 0 ∧ a.place ∉ s'.dev.places
  member : c.task ≠ t → c.task.tgid = t.tgid → (∃ k, k ≠ c.cpu ∧ a.cpumask.getLsbD k = true) →
    a.place ∈ s'.dev.places
  stranger : c.task.tgid ≠ t.tgid → err < 0 ∧ s' = s

/-- An error is passed on. -/
theorem free_reply_of_err (ioc : fujitsu_hwb_ioc_bb_ctl) {err : ℤ} (herr : err ≠ 0) :
    (free_reply arg ioc err).err = err := by
  unfold free_reply
  rw [if_pos herr]

/-- A success is one for the caller only if its argument can be written back. -/
theorem free_reply_zero (ioc : fujitsu_hwb_ioc_bb_ctl) :
    (free_reply arg ioc 0).err = 0 ↔ arg.writable = true := by
  unfold free_reply
  rw [if_neg (not_not.mpr rfl)]
  by_cases hwritable : arg.writable = true
  · rw [if_pos hwritable]
    exact ⟨fun _ => hwritable, fun _ => rfl⟩
  · rw [if_neg hwritable]
    exact ⟨fun herr => absurd herr (by decide), fun hw => absurd hw hwritable⟩

/-- A thread of another group gets an error, and nothing changes. -/
theorem handle_of_stranger (hi : Inv l s.dev) (hlock : s.locks = Locks.free) {g : ℕ}
    {a : a64fx_task_allocation} (ha : Held s.dev g a) (hf : Frees e arg a)
    (hne : e.call.task.tgid ≠ g) :
    ∃ reply, handle e s = .ok (reply, s) ∧ reply.err < 0 := by
  obtain ⟨he, ioc, hread, hcmg, hbb⟩ := hf
  obtain ⟨cmg, hc⟩ : ∃ cmg : Fin MAX_NUM_CMG, cmg.val = a.cmg :=
    ⟨⟨a.cmg, (hi.sane g a ha).cmg_lt⟩, rfl⟩
  have hmissing := free_missing (c := e.call) hi.table hlock cmg ioc.bb.toNat ?_
  · rw [hc, ← hcmg] at hmissing
    refine ⟨_, free_event_eq he hread hmissing, ?_⟩
    rw [free_reply_of_err ioc (by decide)]
    decide
  · -- the only group that holds the place is the allocation's
    intro x hx hxc hxb
    have hplace : x.place = a.place := by
      refine Prod.ext (hxc.trans hc) ?_
      show x.blade = a.blade
      omega
    exact hne (hi.unique hx ha hplace).1

/-- A thread of the group is told that its BB_FREE succeeded, whatever it did, if its
argument can be written back. -/
theorem handle_of_member (hi : Inv l s.dev) (hlock : s.locks = Locks.free)
    {m : a64fx_task_mapping} (hm : m ∈ s.dev.task_list) {a : a64fx_task_allocation}
    (ha : a ∈ m.allocs) (hf : Frees e arg a) (hg : m.group = e.call.task.tgid) :
    ∃ reply s', handle e s = .ok (reply, s') ∧ (reply.err = 0 ↔ arg.writable = true) ∧
      (e.call.task.pid = m.task.pid → Dropped a s s') ∧
      (e.call.task.pid ≠ m.task.pid → Withdrawn e.call m.group a s s') := by
  obtain ⟨he, ioc, hread, hcmg, hbb⟩ := hf
  obtain ⟨cmg, hc⟩ : ∃ cmg : Fin MAX_NUM_CMG, cmg.val = a.cmg :=
    ⟨⟨a.cmg, (hi.sane _ a ⟨m, hm, rfl, ha⟩).cmg_lt⟩, rfl⟩
  by_cases hpid : e.call.task.pid = m.task.pid
  · obtain ⟨s', hfree, -, -, hdrop⟩ :=
      free_by_owner (fun _ => True) hi hlock hm hg ha hc.symm hpid trivial
    rw [hc, ← hcmg, ← hbb] at hfree
    exact ⟨_, s', free_event_eq he hread hfree, free_reply_zero ioc, fun _ => hdrop,
      fun hne => absurd hpid hne⟩
  · obtain ⟨s', hfree, -, -, hout⟩ := free_by_other (fun _ => True) hi hlock hm hg ha hc.symm hpid
      (fun _ _ => trivial) fun _ _ => trivial
    rw [hc, ← hcmg, ← hbb] at hfree
    exact ⟨_, s', free_event_eq he hread hfree, free_reply_zero ioc,
      fun heq => absurd heq hpid, fun _ => hout⟩

/-- A place that was dropped is allocated no more. -/
theorem Dropped.not_mem_places {a : a64fx_task_allocation} (h : Dropped a s s') :
    a.place ∉ s'.dev.places := by
  intro hmem
  obtain ⟨g, x, hx, hp⟩ := mem_places.mp hmem
  exact ((h.held g x).mp hx).2 hp

/-- With no CPU but the caller's left, withdrawing releases the blade. -/
theorem Withdrawn.dropped_of_last {a : a64fx_task_allocation} {g : ℕ}
    (h : Withdrawn c g a s s') (hne : a.cpumask ≠ 0)
    (hlast : ∀ k, a.cpumask.getLsbD k = true → k = c.cpu) : Dropped a s s' := by
  obtain ⟨k, hk⟩ := exists_getLsbD_of_ne_zero hne
  have hself : a.cpumask.getLsbD c.cpu = true := by
    rw [← hlast k hk]
    exact hk
  refine h.dropped hself ((eq_zero_iff _).mpr fun k => ?_)
  apply Bool.eq_false_iff.mpr
  intro hbit
  simp only [a64fx_task_allocation.getLsbD_leave, Bool.and_eq_true, Bool.not_eq_true',
    decide_eq_false_iff_not] at hbit
  exact hbit.2 (hlast k hbit.1).symm

/-! ## The rule for each caller -/

/-- For a caller of another group the rule asks for an error that changes nothing. -/
theorem ownerRule_of_stranger {t : task_struct} {a : a64fx_task_allocation} {err : ℤ}
    (hgroup : c.task.tgid ≠ t.tgid) (herr : err < 0) : OwnerRule t a c s err s where
  creator hself := absurd (congrArg task_struct.tgid hself) hgroup
  member _ hsame := absurd hsame hgroup
  stranger _ := ⟨herr, rfl⟩

/-- When no CPU but the caller's is left and the blade is released, the rule only
asks for the success to be reported to the allocating thread. -/
theorem ownerRule_iff_of_last {t : task_struct} {a : a64fx_task_allocation} {err : ℤ}
    (hgroup : c.task.tgid = t.tgid) (hlast : ∀ k, a.cpumask.getLsbD k = true → k = c.cpu)
    (hd : Dropped a s s') : OwnerRule t a c s err s' ↔ (c.task = t → err = 0) := by
  constructor
  · exact fun hrule hself => (hrule.creator hself).1
  · intro hreport
    refine ⟨fun hself => ⟨hreport hself, hd.not_mem_places⟩, ?_, fun hne => absurd hgroup hne⟩
    rintro - - ⟨k, hk, hbit⟩
    exact absurd (hlast k hbit) hk

/-- With another CPU left, the rule also asks for the blade to be released by the
allocating thread and by nobody else. -/
theorem ownerRule_iff_of_rest {t : task_struct} {a : a64fx_task_allocation} {err : ℤ}
    {releases : Prop} (hgroup : c.task.tgid = t.tgid)
    (hrest : ∃ k, k ≠ c.cpu ∧ a.cpumask.getLsbD k = true)
    (hplace : a.place ∈ s'.dev.places ↔ ¬releases) :
    OwnerRule t a c s err s' ↔ (c.task = t → err = 0) ∧ (releases ↔ c.task = t) := by
  constructor
  · intro hrule
    refine ⟨fun hself => (hrule.creator hself).1, fun hrel => ?_, fun hself => ?_⟩
    · by_contra hne
      exact hplace.mp (hrule.member hne hgroup hrest) hrel
    · by_contra hrel
      exact (hrule.creator hself).2 (hplace.mpr hrel)
  · rintro ⟨hreport, hiff⟩
    refine ⟨fun hself => ⟨hreport hself, fun hmem => hplace.mp hmem (hiff.mpr hself)⟩, ?_,
      fun hne => absurd hgroup hne⟩
    intro hne _ _
    exact hplace.mpr fun hrel => hne (hiff.mp hrel)

/-- **Only, and always, the allocating thread releases a blade**: this holds of a
BB_FREE exactly when the caller is of another group, or the allocating thread's own
argument can be written back and, unless no CPU but the caller's is left to the blade,
the caller is the allocating thread if and only if its pid is the one in the group's
mapping. -/
theorem owner_rule_iff {x : Kernel × (ℕ × ℕ → Option task_struct)}
    (h : (created l R).Reachable x) {g : ℕ} {a : a64fx_task_allocation} (ha : Held x.1.dev g a)
    {t : task_struct} (ht : x.2 a.place = some t) (hf : Frees e arg a) :
    ∃ m reply s', get_taskmap x.1.dev t = some m ∧ handle e x.1 = .ok (reply, s') ∧
      (OwnerRule t a e.call x.1 reply.err s' ↔
        e.call.task.tgid ≠ t.tgid ∨ (e.call.task = t → arg.writable = true) ∧
          ((∀ k, a.cpumask.getLsbD k = true → k = e.call.cpu) ∨
            (e.call.task.pid = m.task.pid ↔ e.call.task = t))) := by
  have hdriver : (driver l R).Reachable x.1 := h.forget
  obtain ⟨hi, hlock⟩ := reachable_inv hdriver
  -- the group of the creator is the one that holds the blade
  obtain ⟨t', ht', htg⟩ := creator_of_held h g a ha
  have htt : t' = t := Option.some.inj (ht'.symm.trans ht)
  rw [htt] at htg
  obtain ⟨m, hm, hg, ham⟩ := id ha
  have hget : get_taskmap x.1.dev t = some m := hi.lists.get_taskmap hm (hg.trans htg.symm)
  by_cases hgroup : e.call.task.tgid = t.tgid
  · obtain ⟨reply, s', hok, herr, hdrop, hout⟩ :=
      handle_of_member hi hlock hm ham hf (hg.trans (htg.symm.trans hgroup.symm))
    refine ⟨m, reply, s', hget, hok, ?_⟩
    rw [or_iff_right (not_not.mpr hgroup), ← herr]
    by_cases hlast : ∀ k, a.cpumask.getLsbD k = true → k = e.call.cpu
    · -- released by whoever calls
      have hd : Dropped a x.1 s' := by
        by_cases hpid : e.call.task.pid = m.task.pid
        · exact hdrop hpid
        · exact (hout hpid).dropped_of_last (cpumask_ne_zero hdriver g a ha) hlast
      rw [ownerRule_iff_of_last hgroup hlast hd]
      exact ⟨fun hreport => ⟨hreport, Or.inl hlast⟩, And.left⟩
    · have hrest : ∃ k, k ≠ e.call.cpu ∧ a.cpumask.getLsbD k = true := by
        obtain ⟨k, hk⟩ := not_forall.mp hlast
        obtain ⟨hbit, hk⟩ := Classical.not_imp.mp hk
        exact ⟨k, hk, hbit⟩
      -- released exactly by the thread in the mapping
      have hplace : a.place ∈ s'.dev.places ↔ e.call.task.pid ≠ m.task.pid := by
        constructor
        · intro hmem hpid
          exact (hdrop hpid).not_mem_places hmem
        · intro hpid
          obtain ⟨y, hy, hp⟩ := (hout hpid).kept hrest
          exact mem_places.mpr ⟨m.group, y, hy, hp⟩
      rw [ownerRule_iff_of_rest hgroup hrest hplace, or_iff_right hlast]
  · have hne : e.call.task.tgid ≠ g := fun heq => hgroup (heq.trans htg.symm)
    obtain ⟨reply, hok, herr⟩ := handle_of_stranger hi hlock ha hf hne
    refine ⟨m, reply, x.1, hget, hok, fun _ => Or.inl hgroup, fun _ => ?_⟩
    exact ownerRule_of_stranger hgroup herr

/-! ## Two threads with a blade each -/

theorem created_after {es : List (Event hw)} {creator : ℕ × ℕ → Option task_struct}
    (h : (created l R).Reachable (after l es, creator)) (hok : succeeds l (es ++ [e]) = true)
    (hrange : e.cmg_in_range = true) :
    (created l R).Reachable (after l (es ++ [e]),
      creators (after l es) e (after l (es ++ [e])) creator) :=
  .step h trivial ⟨step_after hok hrange, rfl⟩

/-- Each thread of the process allocates a blade, the first one before the second. -/
def two_owners : List (Event Quad.machine) :=
  [Quad.open Quad.first 0, Quad.alloc Quad.first 0 0x3, Quad.alloc Quad.second 1 0x7]

theorem two_owners_created : ∃ creator,
    (created Quad.load fun _ => True).Reachable (after Quad.load two_owners, creator) ∧
    creator (0, 0) = some Quad.first ∧ creator (0, 1) = some Quad.second := by
  have h0 : (created Quad.load fun _ => True).Reachable (after Quad.load [], fun _ => none) :=
    .init ⟨init_after trivial (by decide +kernel), rfl⟩
  have h1 := created_after (e := Quad.open Quad.first 0) h0 (by decide +kernel) (by decide)
  have h2 := created_after (e := Quad.alloc Quad.first 0 0x3) h1 (by decide +kernel) (by decide)
  have h3 := created_after (e := Quad.alloc Quad.second 1 0x7) h2 (by decide +kernel) (by decide)
  refine ⟨_, h3, ?_, ?_⟩
  all_goals decide +kernel

/-- The only mapping is that of the first thread. -/
theorem two_owners_task : ∀ m ∈ (after Quad.load two_owners).dev.task_list,
    m.task = Quad.first := by
  decide +kernel

/-- The rule holds of the first thread, whose pid is in the mapping. -/
theorem owner_rule_first : ∃ a ∈ (after Quad.load two_owners).dev.allocs, a.place = (0, 0) ∧
    ∃ reply s', handle (Quad.free Quad.first 0 0) (after Quad.load two_owners) = .ok (reply, s') ∧
      OwnerRule Quad.first a (Quad.call Quad.first 0) (after Quad.load two_owners)
        reply.err s' := by
  have hex : ∃ m ∈ (after Quad.load two_owners).dev.task_list, m.group = 10 ∧
      ∃ a ∈ m.allocs, a.place = (0, 0) := by decide +kernel
  obtain ⟨m, hm, hg, a, ha, hp⟩ := hex
  obtain ⟨creator, hreach, hfirst, -⟩ := two_owners_created
  have hf : Frees (Quad.free Quad.first 0 0) ⟨some ⟨0, 0⟩, true⟩ a :=
    ⟨rfl, ⟨0, 0⟩, rfl, (congrArg Prod.fst hp).symm, (congrArg Prod.snd hp).symm⟩
  obtain ⟨m', reply, s', hget, hok, hiff⟩ :=
    owner_rule_iff hreach ⟨m, hm, hg, ha⟩ (hp ▸ hfirst) hf
  refine ⟨a, mem_allocs.mpr ⟨10, m, hm, hg, ha⟩, hp, reply, s', hok, hiff.mpr (Or.inr ⟨?_, ?_⟩)⟩
  · exact fun _ => rfl
  · rw [two_owners_task m' (mem_of_get_taskmap hget).1]
    exact Or.inr ⟨fun _ => rfl, fun _ => rfl⟩

/-- The second thread cannot release the blade it allocated: the call returns, and the
blade is still held. -/
theorem creator_cannot_free : ∃ creator,
    (created Quad.load fun _ => True).Reachable (after Quad.load two_owners, creator) ∧
    creator (0, 1) = some Quad.second ∧
    ∃ a ∈ (after Quad.load two_owners).dev.allocs, a.place = (0, 1) ∧
      ∃ reply s', handle (Quad.free Quad.second 1 1) (after Quad.load two_owners) =
          .ok (reply, s') ∧
        ¬OwnerRule Quad.second a (Quad.call Quad.second 1) (after Quad.load two_owners)
          reply.err s' := by
  obtain ⟨creator, hreach, -, hsecond⟩ := two_owners_created
  have hex : ∃ a ∈ (after Quad.load two_owners).dev.allocs, a.place = (0, 1) := by decide +kernel
  obtain ⟨a, ha, hp⟩ := hex
  have hstep : (driver Quad.load fun _ => True).step (after Quad.load two_owners)
      (Quad.free Quad.second 1 1)
      (after Quad.load (two_owners ++ [Quad.free Quad.second 1 1])) :=
    step_after (by decide +kernel) (by decide)
  obtain ⟨-, reply, hok⟩ := hstep
  refine ⟨creator, hreach, hsecond, a, ha, hp, reply, _, hok, fun hrule => ?_⟩
  apply (hrule.creator rfl).2
  rw [hp]
  decide +kernel

end A64fxHwb
