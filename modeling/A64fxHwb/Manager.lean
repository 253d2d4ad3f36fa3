/-
The manager the driver is.

Seen from the outside the driver hands out places, a CMG with a blade, to thread
groups, and a seat at a place, a window, to the CPUs that take part: a `Book` of
leases, and the number of open files. `Kernel.manager` reads it off the task list.
The bitmaps, the registers and the order of the lists are not part of it.

What an elementary change of the device does to the book is one operation of the book.
-/
import A64fxHwb.Blades
import A64fxHwb.Caller
import A64fxHwb.Isolation
import A64fxHwb.Lease
import A64fxHwb.Masks

set_option autoImplicit false

namespace A64fxHwb

open BitWord Leasing

variable {hw : Machine} {l : Load hw} {c : Call hw} {d d' : a64fx_hwb_device}
variable {m tm : a64fx_task_mapping} {a a' : a64fx_task_allocation} {g k w : ℕ} {p : ℕ × ℕ}

/-! ## One allocation -/

namespace a64fx_task_allocation

/-- The window of CPU `k`, if it has one. -/
def seat (l : Load hw) (a : a64fx_task_allocation) (k : ℕ) : Option ℕ :=
  if l.online.getLsbD k = true ∧ (hw.cmg k).val = a.cmg ∧ 0 ≤ a.window (hw.slot k)
  then some (a.window (hw.slot k)).toNat
  else none

/-- The allocation as a lease of group `g`. -/
def lease (l : Load hw) (g : ℕ) (a : a64fx_task_allocation) : Lease ℕ ℕ ℕ where
  group := g
  members := { k | a.cpumask.getLsbD k = true }
  seat := a.seat l

theorem seat_eq_some : a.seat l k = some w ↔ Records l a k w := by
  unfold seat Records
  constructor
  · intro h
    split_ifs at h with hif
    obtain ⟨hk, hc, h0⟩ := hif
    have hval := Option.some_inj.mp h
    exact ⟨hk, hc, by omega⟩
  · rintro ⟨hk, hc, hval⟩
    rw [if_pos ⟨hk, hc, by omega⟩, hval, Int.toNat_natCast]

theorem seat_eq_none : a.seat l k = none ↔ ∀ w, ¬Records l a k w := by
  rw [Option.eq_none_iff_forall_ne_some]
  exact forall_congr' fun w => not_congr seat_eq_some

@[simp] theorem mem_lease_members : k ∈ (a.lease l g).members ↔ a.cpumask.getLsbD k = true :=
  Iff.rfl

/-- Taking a window seats the CPU, -/
theorem lease_take (hk : l.online.getLsbD k = true) (hc : (hw.cmg k).val = a.cmg) :
    (a.take (hw.slot k) k w).lease l g = (a.lease l g).seated k (some w) := by
  refine Lease.ext rfl rfl ?_
  funext k'
  apply Option.ext
  intro w'
  refine seat_eq_some.trans ((records_take hk hc w k' w').trans ?_)
  simp only [Lease.seated, Function.update_apply]
  by_cases hkk : k' = k
  · simp only [hkk, if_true, true_and, ne_eq, not_true_eq_false, false_and, or_false,
      Option.some_inj, eq_comm]
  · simp only [hkk, if_false, false_and, false_or, ne_eq, not_false_iff, true_and]
    exact seat_eq_some.symm

/-- and giving it back takes the seat away. -/
theorem lease_give (hk : l.online.getLsbD k = true) (hc : (hw.cmg k).val = a.cmg) :
    (a.give (hw.slot k) k).lease l g = (a.lease l g).seated k none := by
  refine Lease.ext rfl rfl ?_
  funext k'
  apply Option.ext
  intro w'
  refine seat_eq_some.trans ((records_give hk hc k' w').trans ?_)
  simp only [Lease.seated, Function.update_apply]
  by_cases hkk : k' = k
  · simp only [hkk, if_true, ne_eq, not_true_eq_false, false_and, reduceCtorEq]
  · simp only [hkk, if_false, ne_eq, not_false_iff, true_and]
    exact seat_eq_some.symm

/-- A CPU that has no window leaves without one. -/
theorem lease_leave (hnone : a.seat l k = none) :
    (a.leave k).lease l g = (a.lease l g).without k := by
  refine Lease.ext rfl ?_ ?_
  · ext k'
    simp only [lease, Lease.without, getLsbD_leave, Set.mem_ofPred_eq, Set.mem_sdiff,
      Set.mem_singleton_iff, Bool.and_eq_true, Bool.not_eq_true', decide_eq_false_iff_not,
      @eq_comm ℕ k k']
  · funext k'
    simp only [Lease.without, Function.update_apply]
    split_ifs with hkk
    · rw [hkk]
      exact hnone
    · rfl

/-- The last CPU leaves an empty lease. -/
theorem members_leave_eq_empty : ((a.leave k).lease l g).members = ∅ ↔ (a.leave k).cpumask = 0 := by
  rw [eq_zero_iff, Set.eq_empty_iff_forall_notMem]
  simp only [mem_lease_members, Bool.not_eq_true]

end a64fx_task_allocation

/-! ## The book of a device -/

namespace a64fx_hwb_device

/-- The pid of the thread in the group's mapping. -/
def leader (d : a64fx_hwb_device) (g : ℕ) : Option ℕ :=
  (Keyed.lookup a64fx_task_mapping.group g d.task_list).map fun m => m.task.pid

/-- What is allocated at a place. -/
def lease (l : Load hw) (d : a64fx_hwb_device) (p : ℕ × ℕ) : Option (Lease ℕ ℕ ℕ) :=
  d.task_list.findSome? fun m =>
    (Keyed.lookup a64fx_task_allocation.place p m.allocs).map fun a => a.lease l m.group

/-- The leases of the task list. -/
def book (l : Load hw) (d : a64fx_hwb_device) : Book ℕ ℕ (ℕ × ℕ) ℕ ℕ where
  leader := d.leader
  lease := d.lease l

end a64fx_hwb_device

/-- A held place is the only one of its kind, so the first entry that is found is it. -/
theorem Inv.lease_eq_some (hi : Inv l d) {L : Lease ℕ ℕ ℕ} :
    d.lease l p = some L ↔ ∃ g a, Held d g a ∧ a.place = p ∧ L = a.lease l g := by
  have hsound : ∀ L, d.lease l p = some L → ∃ g a, Held d g a ∧ a.place = p ∧ L = a.lease l g := by
    intro L h
    obtain ⟨m, hm, hfound⟩ := List.exists_of_findSome?_eq_some h
    obtain ⟨a, ha, rfl⟩ := Option.map_eq_some_iff.mp hfound
    exact ⟨m.group, a, ⟨m, hm, rfl, Keyed.lookup_mem ha⟩, Keyed.lookup_key ha, rfl⟩
  constructor
  · exact hsound L
  · rintro ⟨g, a, ha, hp, rfl⟩
    obtain ⟨m, hm, hg, hmem⟩ := ha
    have hsome : d.lease l p ≠ none := by
      intro hnone
      have hnothing := List.findSome?_eq_none_iff.mp hnone m hm
      rw [← hp, Keyed.lookup_of_mem (hi.lists.mapping m hm).places hmem] at hnothing
      cases hnothing
    obtain ⟨L, hL⟩ := Option.ne_none_iff_exists'.mp hsome
    obtain ⟨g', a', ha', hp', rfl⟩ := hsound L hL
    obtain ⟨rfl, rfl⟩ := hi.unique ha' ⟨m, hm, hg, hmem⟩ (hp'.trans hp.symm)
    exact hL

theorem Inv.lease_of_held (hi : Inv l d) (ha : Held d g a) :
    d.lease l a.place = some (a.lease l g) :=
  hi.lease_eq_some.mpr ⟨g, a, ha, rfl, rfl⟩

theorem Inv.lease_eq_none (hi : Inv l d) :
    d.lease l p = none ↔ ∀ g a, Held d g a → a.place ≠ p := by
  rw [Option.eq_none_iff_forall_ne_some]
  constructor
  · intro h g a ha hp
    exact h _ (hi.lease_eq_some.mpr ⟨g, a, ha, hp, rfl⟩)
  · rintro h L hL
    obtain ⟨g, a, ha, hp, -⟩ := hi.lease_eq_some.mp hL
    exact h g a ha hp

/-- What group `g` has of a place is its allocation there. -/
theorem Inv.leaseOf_eq_some (hi : Inv l d) {L : Lease ℕ ℕ ℕ} :
    (d.book l).leaseOf g p = some L ↔ ∃ a, Held d g a ∧ a.place = p ∧ L = a.lease l g := by
  rw [Book.leaseOf_eq_some]
  constructor
  · rintro ⟨hL, rfl⟩
    obtain ⟨g, a, ha, hp, rfl⟩ := hi.lease_eq_some.mp hL
    exact ⟨a, ha, hp, rfl⟩
  · rintro ⟨a, ha, hp, rfl⟩
    exact ⟨hi.lease_eq_some.mpr ⟨g, a, ha, hp, rfl⟩, rfl⟩

theorem Inv.leaseOf_eq_none (hi : Inv l d) :
    (d.book l).leaseOf g p = none ↔ ∀ a, Held d g a → a.place ≠ p := by
  rw [Option.eq_none_iff_forall_ne_some]
  constructor
  · intro h a ha hp
    exact h _ (hi.leaseOf_eq_some.mpr ⟨a, ha, hp, rfl⟩)
  · rintro h L hL
    obtain ⟨a, ha, hp, -⟩ := hi.leaseOf_eq_some.mp hL
    exact h a ha hp

theorem Inv.hasLease_iff (hi : Inv l d) : (d.book l).HasLease g ↔ ∃ a, Held d g a := by
  constructor
  · rintro ⟨p, L, hL, rfl⟩
    obtain ⟨g, a, ha, -, rfl⟩ := hi.lease_eq_some.mp hL
    exact ⟨a, ha⟩
  · rintro ⟨a, ha⟩
    exact ⟨a.place, _, hi.lease_of_held ha, rfl⟩

/-! ## What a change of the device does to its book -/

section Leader

variable {f : a64fx_task_mapping → a64fx_task_mapping}

theorem leader_eq_some (hl : Lists d) {t : ℕ} :
    d.leader g = some t ↔ ∃ m ∈ d.task_list, m.group = g ∧ m.task.pid = t := by
  unfold a64fx_hwb_device.leader
  rw [Option.map_eq_some_iff]
  constructor
  · rintro ⟨m, hm, ht⟩
    exact ⟨m, Keyed.lookup_mem hm, Keyed.lookup_key hm, ht⟩
  · rintro ⟨m, hm, rfl, ht⟩
    exact ⟨m, Keyed.lookup_of_mem hl.groups hm, ht⟩

theorem leader_eq_none : d.leader g = none ↔ ∀ m ∈ d.task_list, m.group ≠ g := by
  unfold a64fx_hwb_device.leader
  rw [Option.map_eq_none_iff, Keyed.lookup_eq_none]

/-- A write to a mapping that keeps its task keeps the leaders. -/
theorem leader_with_taskmap (hf : ∀ x, (f x).task = x.task) (tm : a64fx_task_mapping) :
    (d.with_taskmap tm f).leader = d.leader := by
  funext g
  unfold a64fx_hwb_device.leader a64fx_hwb_device.with_taskmap
  rw [Keyed.lookup_modify (by intro x hx; rw [a64fx_task_mapping.group, hf x]; exact hx),
    Option.map_map]
  congr 1
  funext m
  simp only [Function.comp]
  split_ifs
  · rw [hf m]
  · rfl

theorem leader_store_alloc (d : a64fx_hwb_device) (tm : a64fx_task_mapping)
    (a : a64fx_task_allocation) : (d.store_alloc tm a).leader = d.leader :=
  leader_with_taskmap (f := fun m => { m with
    allocs := Keyed.modify a64fx_task_allocation.place a.place (fun _ => a) m.allocs })
    (fun _ => rfl) tm

theorem leader_map_group (task : task_struct) (g : ℕ) : (d.map_group task).leader g =
    if g = task.tgid then some task.pid else d.leader g := by
  have hlist : (d.map_group task).task_list =
      { task := task, allocs := [], num_allocs := 0 } :: d.task_list := rfl
  unfold a64fx_hwb_device.leader
  rw [hlist]
  by_cases hg : task.tgid = g
  · rw [if_pos hg.symm, Keyed.lookup_cons_self (by exact hg)]
    rfl
  · rw [if_neg (Ne.symm hg), Keyed.lookup_cons_of_ne (by exact hg)]

end Leader

/-- A book is known when its leaders are and who holds what. -/
theorem Inv.book_eq (hi : Inv l d) {B : Book ℕ ℕ (ℕ × ℕ) ℕ ℕ} (hleader : d.leader = B.leader)
    (hlease : ∀ p L, B.lease p = some L ↔ ∃ g a, Held d g a ∧ a.place = p ∧ L = a.lease l g) :
    d.book l = B := by
  refine Book.ext hleader ?_
  funext p
  apply Option.ext
  intro L
  exact hi.lease_eq_some.trans (hlease p L).symm

theorem book_map_group (hi : Inv l d) {task : task_struct}
    (hnew : ∀ m ∈ d.task_list, m.group ≠ task.tgid) (hi' : Inv l (d.map_group task)) :
    (d.map_group task).book l = (d.book l).enrol task.tgid task.pid := by
  have hnone : (d.book l).leader task.tgid = none := leader_eq_none.mpr hnew
  refine hi'.book_eq ?_ fun p L => ?_
  · funext g
    rw [Book.leader_enrol, hnone, Option.getD_none]
    exact leader_map_group task g
  · rw [show ((d.book l).enrol task.tgid task.pid).lease p = d.lease l p from rfl,
      hi.lease_eq_some]
    simp only [held_map_group]

theorem book_hold_alloc (hi : Inv l d) (hm : m ∈ d.task_list) (hg : m.group = tm.group)
    {cmg : Fin MAX_NUM_CMG} (hi' : Inv l (d.hold_alloc tm cmg a))
    (hfresh : ∀ g x, Held d g x → x.place ≠ a.place) :
    (d.hold_alloc tm cmg a).book l = (d.book l).grant a.place (a.lease l tm.group) := by
  have hleader : (d.hold_alloc tm cmg a).leader = d.leader :=
    leader_with_taskmap (f := fun m =>
      { m with allocs := a :: m.allocs, num_allocs := m.num_allocs + 1 }) (fun _ => rfl) tm
  refine hi'.book_eq hleader fun p L => ?_
  simp only [Book.lease_grant, held_hold_alloc hi.lists hm hg]
  by_cases hp : p = a.place
  · rw [if_pos hp, Option.some_inj]
    constructor
    · rintro rfl
      exact ⟨tm.group, a, Or.inr ⟨rfl, rfl⟩, hp.symm, rfl⟩
    · rintro ⟨g, x, hx | ⟨rfl, rfl⟩, hxp, rfl⟩
      · exact absurd (hxp.trans hp) (hfresh g x hx)
      · rfl
  · rw [if_neg hp, show (d.book l).lease p = some L ↔ _ from hi.lease_eq_some]
    constructor
    · rintro ⟨g, x, hx, hxp, rfl⟩
      exact ⟨g, x, Or.inl hx, hxp, rfl⟩
    · rintro ⟨g, x, hx | ⟨-, rfl⟩, hxp, rfl⟩
      · exact ⟨g, x, hx, hxp, rfl⟩
      · exact absurd hxp.symm hp

/-- A device that has lost the allocation `a`. -/
theorem book_drop (hi : Inv l d) (hi' : Inv l d') (hleader : d'.leader = d.leader)
    (hheld : ∀ g x, Held d' g x ↔ Held d g x ∧ x.place ≠ a.place) :
    d'.book l = (d.book l).revoke a.place := by
  refine hi'.book_eq hleader fun p L => ?_
  simp only [Book.lease_revoke, hheld]
  by_cases hp : p = a.place
  · rw [if_pos hp]
    constructor
    · intro h
      cases h
    · rintro ⟨g, x, ⟨-, hne⟩, hxp, -⟩
      exact absurd (hxp.trans hp) hne
  · rw [if_neg hp, show (d.book l).lease p = some L ↔ _ from hi.lease_eq_some]
    constructor
    · rintro ⟨g, x, hx, hxp, rfl⟩
      exact ⟨g, x, ⟨hx, fun h => hp (hxp.symm.trans h)⟩, hxp, rfl⟩
    · rintro ⟨g, x, ⟨hx, -⟩, hxp, rfl⟩
      exact ⟨g, x, hx, hxp, rfl⟩

/-- A device with `a'` stored in place of the allocation `a`. -/
theorem book_store (hi : Inv l d) (hi' : Inv l d') (hleader : d'.leader = d.leader)
    (hp : a'.place = a.place)
    (hheld : ∀ g x, Held d' g x ↔ (Held d g x ∧ x.place ≠ a.place) ∨ (g = tm.group ∧ x = a')) :
    d'.book l = (d.book l).grant a.place (a'.lease l tm.group) := by
  refine hi'.book_eq hleader fun p L => ?_
  simp only [Book.lease_grant, hheld]
  by_cases hpa : p = a.place
  · rw [if_pos hpa, Option.some_inj]
    constructor
    · rintro rfl
      exact ⟨tm.group, a', Or.inr ⟨rfl, rfl⟩, hp.trans hpa.symm, rfl⟩
    · rintro ⟨g, x, ⟨-, hne⟩ | ⟨rfl, rfl⟩, hxp, rfl⟩
      · exact absurd (hxp.trans hpa) hne
      · rfl
  · rw [if_neg hpa, show (d.book l).lease p = some L ↔ _ from hi.lease_eq_some]
    constructor
    · rintro ⟨g, x, hx, hxp, rfl⟩
      exact ⟨g, x, Or.inl ⟨hx, fun h => hpa (hxp.symm.trans h)⟩, hxp, rfl⟩
    · rintro ⟨g, x, ⟨hx, -⟩ | ⟨-, rfl⟩, hxp, rfl⟩
      · exact ⟨g, x, hx, hxp, rfl⟩
      · exact absurd (hxp.symm.trans hp) hpa

/-- The mapping of a group is unlinked. The group gives back what it has. -/
theorem book_erase (hi : Inv l d) (hi' : Inv l d')
    (hlist : d'.task_list = Keyed.erase a64fx_task_mapping.group g d.task_list) :
    d'.book l = (d.book l).dissolve g := by
  refine hi'.book_eq ?_ fun p L => ?_
  · funext g'
    rw [Book.leader_dissolve]
    unfold a64fx_hwb_device.leader
    rw [hlist]
    by_cases hg : g' = g
    · rw [if_pos hg, hg, Keyed.lookup_erase_self hi.lists.groups]
      rfl
    · rw [if_neg hg, Keyed.lookup_erase_of_ne hg]
      rfl
  · have hheld : ∀ g' x, Held d' g' x ↔ Held d g' x ∧ g' ≠ g := by
      intro g' x
      unfold Held
      rw [hlist]
      constructor
      · rintro ⟨m, hm, rfl, hx⟩
        obtain ⟨hm, hne⟩ := (Keyed.mem_erase hi.lists.groups m).mp hm
        exact ⟨⟨m, hm, rfl, hx⟩, hne⟩
      · rintro ⟨⟨m, hm, rfl, hx⟩, hne⟩
        exact ⟨m, (Keyed.mem_erase hi.lists.groups m).mpr ⟨hm, hne⟩, rfl, hx⟩
    simp only [Book.dissolve, Option.filter_eq_some_iff, decide_eq_true_eq, hheld]
    rw [show (d.book l).lease p = some L ↔ _ from hi.lease_eq_some]
    constructor
    · rintro ⟨⟨g', x, hx, hxp, rfl⟩, hne⟩
      exact ⟨g', x, ⟨hx, hne⟩, hxp, rfl⟩
    · rintro ⟨g', x, ⟨hx, hne⟩, hxp, rfl⟩
      exact ⟨⟨g', x, hx, hxp, rfl⟩, hne⟩

end A64fxHwb
