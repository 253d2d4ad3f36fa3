/-
The driver serves its requests as the manager does.

Every operation is compared with its counterpart in `Service.lean`: the same reply,
error codes included, and a state that stands for the manager the service leaves. The
questions the service asks of the book are the bits the driver tests, as long as the
bookkeeping accounts for every window and the registers agree with it (`Accounted`).
-/
import A64fxHwb.Commute
import A64fxHwb.Registers
import A64fxHwb.Service

set_option autoImplicit false

namespace A64fxHwb

open BitWord Leasing Relation Runs

variable {hw : Machine} {l : Load hw} {c : Call hw} {e : Event hw} {s s' t : Kernel}
variable {d : a64fx_hwb_device} {m tm : a64fx_task_mapping} {a : a64fx_task_allocation}
variable {cmg : Fin MAX_NUM_CMG} {g k w : ℕ} {p : ℕ × ℕ}

/-! ## The questions -/

/-- The mask asks for what the check accepts. -/
theorem asks_iff (ht : Table l d) (online mask : cpumask_t) (cmg : Fin MAX_NUM_CMG) :
    Asks l online mask cmg ↔ check_cpumask online d mask = cmg.val := by
  rw [check_cpumask_iff ht]
  constructor
  · rintro ⟨hweight, hacc⟩
    exact ⟨hweight, hacc.online, hacc.cmg, hacc.known⟩
  · rintro ⟨hweight, hon, hcmg, hknown⟩
    exact ⟨hweight, hon, hcmg, hknown⟩

theorem asked_eq_some (ht : Table l d) {online mask : cpumask_t} :
    asked l online mask = some cmg ↔ check_cpumask online d mask = cmg.val := by
  have hsound : ∀ i, asked l online mask = some i → check_cpumask online d mask = i.val := by
    intro i h
    exact (asks_iff ht online mask i).mp (asks_of_asked h)
  constructor
  · exact hsound cmg
  · intro h
    cases hf : asked l online mask with
    | none =>
        unfold asked at hf
        have hno := List.find?_eq_none.mp hf cmg (List.mem_finRange cmg)
        simp only [decide_eq_true_eq] at hno
        exact absurd ((asks_iff ht online mask cmg).mpr h) hno
    | some i =>
        -- the check returns one number
        have hi := hsound i hf
        rw [h] at hi
        exact congrArg some (Fin.ext (by omega))

theorem asked_eq_none (ht : Table l d) {online mask : cpumask_t}
    (h : asked l online mask = none) : check_cpumask online d mask < 0 := by
  refine check_cpumask_neg ht fun cmg hcheck => ?_
  rw [(asked_eq_some ht).mpr hcheck] at h
  cases h

/-- The search of a bitmap is the search for the lowest free number. -/
theorem lowestFree_eq (word : BitVec 64) (n : ℕ) :
    lowestFree (fun b => word.getLsbD b = true) n =
      if firstZero word n < n then some (firstZero word n) else none := by
  by_cases h : firstZero word n < n
  · obtain ⟨hfree, hlow⟩ := firstZero_spec h
    rw [if_pos h, lowestFree_eq_some]
    exact ⟨by rw [hfree]; exact Bool.false_ne_true, h, hlow⟩
  · rw [if_neg h, lowestFree_eq_none]
    intro b hb
    by_contra hbit
    exact h (firstZero_lt_iff.mpr ⟨b, hb, Bool.eq_false_iff.mpr hbit⟩)

/-- A blade is leased when its bit is set. -/
theorem Inv.leased_iff (hi : Inv l d) (cmg : Fin MAX_NUM_CMG) (b : ℕ) :
    (d.book l).lease (cmg.val, b) ≠ none ↔ d.bb cmg b = true := by
  constructor
  · intro h
    obtain ⟨L, hL⟩ := Option.ne_none_iff_exists'.mp h
    obtain ⟨g, a, ha, hp, -⟩ := hi.lease_eq_some.mp hL
    have hb := hi.bb_of_held ha (congrArg Prod.fst hp)
    rw [show a.blade = b from congrArg Prod.snd hp] at hb
    exact hb
  · intro hb hnone
    obtain ⟨g, a, ha, hp⟩ := hi.blades_covered (cmg.val, b) ⟨cmg, rfl, hb⟩
    exact hi.lease_eq_none.mp hnone g a ha hp

/-- A window is in use when its bit is set, if every window is accounted for. -/
theorem Inv.inUse_iff (hi : Inv l d) (hcov : (windows l d).Covered)
    (hk : l.online.getLsbD k = true) (w : ℕ) :
    (d.book l).InUse k w ↔ d.bw (hw.cmg k) (hw.slot k) w = true := by
  constructor
  · rintro ⟨p, L, hL, hseat⟩
    obtain ⟨g, a, ha, -, rfl⟩ := hi.lease_eq_some.mp hL
    exact hi.bw_of_records ha (a64fx_task_allocation.seat_eq_some.mp hseat)
  · intro hbit
    obtain ⟨p, g, a, ha, -, hr⟩ := hcov (k, w) ⟨hk, hbit⟩
    exact ⟨a.place, _, hi.lease_of_held ha, a64fx_task_allocation.seat_eq_some.mpr hr⟩

/-- The thread in the mapping leads the group. -/
theorem leader_of_mapping (hl : Lists d) (hm : m ∈ d.task_list) :
    d.leader m.group = some m.task.pid :=
  (leader_eq_some hl).mpr ⟨m, hm, rfl, rfl⟩

/-- What the comparison rests on: the base invariant, no lock held, every window accounted
for, and registers that agree with the bookkeeping. -/
structure Accounted (l : Load hw) (s : Kernel) : Prop where
  inv : Inv l s.dev
  locks : s.locks = Locks.free
  covered : (windows l s.dev).Covered
  agree : RegistersAgree l s

/-! ## BB_ALLOC -/

/-- The group is enrolled once the driver has its mapping. -/
theorem book_of_mapped (hi : Inv l s.dev) (h : Mapped c s m t) :
    t.dev.book l = (s.dev.book l).enrol c.task.tgid c.task.pid := by
  have hi' := h.inv hi
  cases h with
  | found m hget =>
      obtain ⟨hm, hg⟩ := mem_of_get_taskmap hget
      have hleader : (s.dev.book l).leader c.task.tgid = some m.task.pid := by
        rw [← hg]
        exact leader_of_mapping hi.lists hm
      exact (Book.enrol_of_leader hleader).symm
  | created hget hmem => exact book_map_group hi (get_taskmap_eq_none.mp hget) hi'

/-- A fresh allocation as a lease. -/
theorem lease_init_allocation (cmgdev : a64fx_cmg_device) (m : a64fx_task_mapping) (b : ℕ)
    (mask : cpumask_t) (g : ℕ) :
    (init_allocation cmgdev m b mask).lease l g =
      { group := g, members := { k | mask.getLsbD k = true }, seat := fun _ => none } := by
  refine Lease.ext rfl rfl ?_
  funext k
  refine a64fx_task_allocation.seat_eq_none.mpr fun w hr => ?_
  have hval : (-1 : ℤ) = w := hr.2.2
  omega

theorem place_init_allocation (ht : Table l d) (cmg : Fin MAX_NUM_CMG) (m : a64fx_task_mapping)
    {b : ℕ} (hb : b < MAX_BB_PER_CMG) (mask : cpumask_t) :
    (init_allocation (d.cmgs cmg) m b mask).place = (cmg.val, b) := by
  have hcmg : cmg.val < 4 := cmg.isLt
  have hb6 : b < 6 := hb
  unfold init_allocation a64fx_task_allocation.place
  simp only [ht.cmg_id cmg, u8_natCast (show cmg.val < 256 by omega),
    u8_natCast (show b < 256 by omega)]

/-- **BB_ALLOC on a CMG.** -/
theorem allocate_serves (hi : Inv l s.dev) (hlock : s.locks = Locks.free) {mask : cpumask_t}
    (hacc : Accepted l c.online cmg mask) :
    ∃ ret s', oss_a64fx_hwb_allocate c cmg.val mask s = .ok (ret, s') ∧
      (s.manager l).allocate c mask cmg = (ret, s'.manager l) := by
  unfold Manager.allocate
  rcases mapped_or_no_memory c s with ⟨m, t, hmap⟩ | ⟨hget, hmem⟩
  swap
  · refine ⟨_, _, allocate_no_memory (congrArg Locks.dev_lock hlock) cmg mask hget hmem, ?_⟩
    have hnone : (s.manager l).book.leader c.task.tgid = none :=
      leader_eq_none.mpr (get_taskmap_eq_none.mp hget)
    exact if_pos ⟨hnone, hmem⟩
  refine ⟨(allocate_outcome c cmg mask m t).1, (allocate_outcome c cmg mask m t).2,
    allocate_eq hi hlock cmg mask hmap, ?_⟩
  have hi' := hmap.inv hi
  obtain ⟨hm, hg⟩ := hmap.mem
  have hbook := book_of_mapped hi hmap
  have hfiles : t.dev.active_count = s.dev.active_count := by
    cases hmap with
    | found => rfl
    | created => rfl
  have hmapping : ¬((s.manager l).book.leader c.task.tgid = none ∧ c.kmalloc_taskmap = false) := by
    rintro ⟨hnone, hmem⟩
    rcases hmap.mapping with hget | hmem'
    · exact hget (get_taskmap_eq_none.mpr (leader_eq_none.mp hnone))
    · rw [hmem] at hmem'
      exact Bool.noConfusion hmem'
  rw [if_neg hmapping]
  -- the book with the group enrolled is the one of the state that has the mapping
  have hbook' : (s.manager l).book.enrol c.task.tgid c.task.pid = t.dev.book l := hbook.symm
  have hsearch : lowestFree (fun b => (t.dev.book l).lease (cmg.val, b) ≠ none) MAX_BB_PER_CMG =
      lowestFree (fun b => (t.dev.cmgs cmg).bb_active.getLsbD b = true) MAX_BB_PER_CMG :=
    lowestFree_congr fun b _ => hi'.leased_iff cmg b
  simp only [hbook', hsearch, lowestFree_eq]
  unfold allocate_outcome
  by_cases hb : firstZero (t.dev.cmgs cmg).bb_active MAX_BB_PER_CMG < MAX_BB_PER_CMG
  swap
  · simp only [if_neg hb, Kernel.manager, hfiles]
  have hfree := (firstZero_spec hb).1
  simp only [if_pos hb]
  generalize firstZero (t.dev.cmgs cmg).bb_active MAX_BB_PER_CMG = b at hb hfree ⊢
  cases hmem : c.kmalloc_alloc with
  | false => simp only [Bool.false_eq_true, if_false, Kernel.manager, hfiles]
  | true =>
      have hmicro : Micro l c (fun _ => True) t (allocated c m cmg b mask t) :=
        .take_blade m cmg b mask hm hg hb hfree hacc trivial
      have hplace := place_init_allocation hi'.table cmg m hb mask
      have hgrant := book_hold_alloc hi' hm rfl (hmicro.inv hi') fun g x hx hxp =>
        hi'.fresh_place hfree hx (hxp.trans hplace)
      rw [hplace, lease_init_allocation (t.dev.cmgs cmg) m b mask m.group, hg] at hgrant
      simp only [if_true, Kernel.manager, ← hgrant]
      rw [← hfiles]
      rfl

/-- **BB_ALLOC.** -/
theorem alloc_serves (hi : Inv l s.dev) (hlock : s.locks = Locks.free) {arg : AllocArg}
    (he : e.request = .ioctl (.BB_ALLOC arg)) :
    ∃ reply s', handle e s = .ok (reply, s') ∧
      (s.manager l).alloc l e.call arg = (reply, s'.manager l) := by
  unfold Manager.alloc
  cases hread : arg.read with
  | none =>
      refine ⟨_, _, alloc_event_refused he fun ioc mask h => ?_, rfl⟩
      rw [hread] at h
      cases h
  | some ioc =>
      cases hpemask : arg.pemask with
      | none =>
          refine ⟨_, _, alloc_event_refused he fun ioc mask _ h => ?_, rfl⟩
          rw [hpemask] at h
          cases h
      | some mask =>
          cases hasked : asked l e.call.online mask with
          | none =>
              refine ⟨{ err := -EINVAL }, s, alloc_event_refused he fun ioc' mask' _ h => ?_, ?_⟩
              · rw [hpemask, Option.some_inj] at h
                rw [← h]
                exact asked_eq_none hi.table hasked
              · simp only [hasked]
          | some cmg =>
              have hcheck := (asked_eq_some hi.table).mp hasked
              have hasks := (asks_iff hi.table e.call.online mask cmg).mpr hcheck
              obtain ⟨ret, s', hrun, hserve⟩ := allocate_serves hi hlock hasks.2
              refine ⟨alloc_reply arg cmg.val ret, s', ?_, ?_⟩
              · rw [alloc_event_eq he hread hpemask (by omega), hcheck, hrun]
                rfl
              · simp only [hasked, hserve]

/-! ## BB_FREE -/

/-- Only the task list counts for the leaders. -/
theorem leader_of_released {a : a64fx_task_allocation} (h : Released tm a s t) :
    t.dev.leader = s.dev.leader := by
  have hlist : t.dev.leader =
      (s.dev.with_taskmap tm (a64fx_task_mapping.drop a.place)).leader := by
    unfold a64fx_hwb_device.leader
    rw [h.task_list]
    rfl
  exact hlist.trans
    (leader_with_taskmap (f := a64fx_task_mapping.drop a.place) (fun _ => rfl) tm)

/-- The check after a release retires a group that has nothing left. -/
theorem unregister_serves (hi : Inv l t.dev) (hm : m ∈ t.dev.task_list) (hgm : m.group = tm.group)
    (hg : tm.group = c.task.tgid) :
    ∃ t', unregister_if_empty c tm t = .ok t' ∧ t'.locks = t.locks ∧
      t'.dev.active_count = t.dev.active_count ∧
      t'.dev.book l = (t.dev.book l).retire c.task.tgid := by
  refine ⟨_, unregister_if_empty_ok hi.lists hm hgm, ?_⟩
  rw [← hg, ← hgm]
  by_cases hempty : m.allocs = []
  · rw [if_pos hempty]
    refine ⟨rfl, rfl, ?_⟩
    have hmicro : Micro l c (fun _ => True) t { t with dev := t.dev.unmap_group m.group } :=
      .unmap_group m hm (hgm.trans hg) hempty
    have hno : ¬(t.dev.book l).HasLease m.group := by
      rw [hi.hasLease_iff]
      rintro ⟨a, ha⟩
      have hmem := ha.mem_allocs hi.lists hm rfl
      rw [hempty] at hmem
      cases hmem
    rw [Book.retire_of_not_hasLease hno]
    refine (hmicro.inv hi).book_eq ?_ fun p L => ?_
    · have hdissolve := congrArg Book.leader
        (book_erase (g := m.group) hi (hmicro.inv hi) rfl)
      exact hdissolve
    · rw [show (t.dev.book l).lease p = some L ↔ _ from hi.lease_eq_some]
      simp only [held_unmap_group hi.lists hm hempty]
  · rw [if_neg hempty]
    refine ⟨rfl, rfl, ?_⟩
    obtain ⟨a, ha⟩ := List.exists_mem_of_ne_nil m.allocs hempty
    exact (Book.retire_of_hasLease (hi.hasLease_iff.mpr ⟨a, m, hm, rfl, ha⟩)).symm

/-- BB_FREE by the thread in the mapping. -/
theorem free_owner_serves (hi : Inv l s.dev) (hlock : s.locks = Locks.free)
    (hm : m ∈ s.dev.task_list) (hg : m.group = c.task.tgid) (ha : a ∈ m.allocs)
    (hc : a.cmg = cmg.val) (hpid : c.task.pid = m.task.pid) :
    ∃ s', oss_a64fx_hwb_free c cmg.val a.blade s = .ok (0, s') ∧ s'.manager l =
      { s.manager l with book := ((s.dev.book l).revoke a.place).retire c.task.tgid } := by
  have hheld : Held s.dev m.group a := ⟨m, hm, rfl, ha⟩
  obtain ⟨t, hfree, hpath, hrel⟩ := @free_allocation_spec hw l c (fun _ => True)
    { s with locks := Locks.dev_held } m a cmg hi hg hheld hc trivial
  have hit : Inv l t.dev := path_inv (s := { s with locks := Locks.dev_held }) hi hpath
  obtain ⟨m', hm', hgm⟩ :=
    Released.mapping (s := { s with locks := Locks.dev_held }) hi.lists hheld hrel
  obtain ⟨t', hun, hlocks, hcount, hbook⟩ := unregister_serves hit hm' hgm hg
  refine ⟨{ t' with locks := Locks.free },
    free_owner_eq hi hlock hm hg ha hc hpid hfree hun (hlocks.trans hrel.locks), ?_⟩
  have hrevoke : t.dev.book l = (s.dev.book l).revoke a.place :=
    book_drop (d := s.dev) hi hit
      (leader_of_released (s := { s with locks := Locks.dev_held }) hrel)
      (Released.held (s := { s with locks := Locks.dev_held }) hi hheld hrel)
  rw [hrevoke] at hbook
  simp only [Kernel.manager, hbook]
  rw [show t'.dev.active_count = s.dev.active_count from hcount.trans hrel.active_count]

/-- The part of a withdrawal before the CPU leaves: its window is given back, if it has
one. -/
theorem withdraw_eq (hi : Inv l s.dev) (hg : tm.group = c.task.tgid)
    (ha : Held s.dev tm.group a) (hmem : a.cpumask.getLsbD c.cpu = true) :
    ∃ y t, oss_a64fx_hwb_free_withdraw c cmg tm a s = oss_a64fx_hwb_free_leave c cmg tm y t ∧
      Inv l t.dev ∧ Held t.dev tm.group y ∧ y.place = a.place ∧ t.locks = s.locks ∧
      t.dev.active_count = s.dev.active_count ∧ y.assign_mask.getLsbD c.cpu = false ∧
      y.lease l tm.group = (a.lease l tm.group).seated c.cpu none ∧
      t.dev.book l = (s.dev.book l).grant a.place (y.lease l tm.group) := by
  by_cases hassign : a.assign_mask.getLsbD c.cpu = true
  · obtain ⟨w, hw4, hr⟩ := (hi.sane _ a ha).recorded hassign
    obtain ⟨wb, hun⟩ := free_unassign_ok (c := c) (s := get_cpu s) hi.table tm hr hw4
    have hmicro : Micro l c (fun _ => True) (get_cpu s)
        { set_wr c c.cpu 0 0 0 (get_cpu s) with
          dev := (get_cpu s).dev.give_window tm (hw.cmg c.cpu) (hw.slot c.cpu) w wb
            (a.give (hw.slot c.cpu) c.cpu) } :=
      .give_window tm a c.cpu w 0 wb hg ha hr (Or.inr ⟨rfl, trivial⟩)
    have hit := Micro.inv (s := get_cpu s) hi hmicro
    have hplace := a.place_give (hw.slot c.cpu) c.cpu
    have hheld := hi.held_store ha hplace
    refine ⟨a.give (hw.slot c.cpu) c.cpu, _, ?_, hit, (hheld _ _).mpr (Or.inr ⟨rfl, rfl⟩), hplace,
      rfl, rfl, ?_, a64fx_task_allocation.lease_give hr.1 hr.2.1, ?_⟩
    · unfold oss_a64fx_hwb_free_withdraw
      have hpe : get_pemap (get_cpu s).dev (hw.cmg c.cpu) (hw.ppe c.cpu) =
          some (hw.slot c.cpu) := get_pemap_online hi.table hr.1
      simp only [Machine.read_peinfo, cpumask_test_cpu, hmem, if_true, hassign, hpe, hun,
        Loops.ok_bind]
    · simp [a64fx_task_allocation.give]
    · exact book_store (d := s.dev) hi hit (leader_store_alloc _ tm _) hplace hheld
  · have hfree := Bool.eq_false_iff.mpr hassign
    have hseat : (a.lease l tm.group).seat c.cpu = none :=
      a64fx_task_allocation.seat_eq_none.mpr fun w hr => hassign ((hi.sane _ a ha).assigned hr)
    have hsame : a.lease l tm.group = (a.lease l tm.group).seated c.cpu none := by
      unfold Lease.seated
      rw [← hseat, Function.update_eq_self]
    refine ⟨a, get_cpu s, ?_, hi, ha, rfl, rfl, rfl, hfree, hsame, ?_⟩
    · unfold oss_a64fx_hwb_free_withdraw
      simp only [Machine.read_peinfo, cpumask_test_cpu, hmem, if_true, hfree, Bool.false_eq_true,
        if_false, pure_bind]
    · have hlease : (s.dev.book l).lease a.place = some (a.lease l tm.group) := hi.lease_of_held ha
      unfold Book.grant
      rw [← hlease, Function.update_eq_self]
      rfl

/-- A CPU without a window leaves the blade. -/
theorem leave_serves (hi : Inv l t.dev) (hg : tm.group = c.task.tgid) (ha : Held t.dev tm.group a)
    (hc : a.cmg = cmg.val) (hmem : a.cpumask.getLsbD c.cpu = true)
    (hfree : a.assign_mask.getLsbD c.cpu = false) :
    ∃ t', oss_a64fx_hwb_free_leave c cmg tm a t = .ok t' ∧ t'.locks = t.locks ∧
      t'.dev.active_count = t.dev.active_count ∧ t'.dev.book l =
        ((t.dev.book l).withdraw a.place (a.lease l tm.group) c.cpu).retire c.task.tgid := by
  have hnone : a.seat l c.cpu = none :=
    a64fx_task_allocation.seat_eq_none.mpr fun w hr => by
      rw [(hi.sane _ a ha).assigned hr] at hfree
      exact Bool.noConfusion hfree
  have hleave : (a.leave c.cpu).lease l tm.group = (a.lease l tm.group).without c.cpu :=
    a64fx_task_allocation.lease_leave hnone
  have hempty := a64fx_task_allocation.members_leave_eq_empty (l := l) (a := a) (g := tm.group)
    (k := c.cpu)
  rw [hleave] at hempty
  unfold Book.withdraw
  rw [if_pos (a64fx_task_allocation.mem_lease_members.mpr hmem)]
  by_cases hzero : (a.leave c.cpu).cpumask = 0
  · rw [if_pos (hempty.mpr hzero)]
    have hmicro : Micro l c (fun _ => True) t { t with dev := t.dev.drop_alloc tm cmg a } :=
      .give_blade tm cmg a hg ha hc ((hi.sane _ a ha).assign_mask_of_last hfree hzero) trivial
    have hit := hmicro.inv hi
    have hdropped : Released tm a t { t with dev := t.dev.drop_alloc tm cmg a } :=
      ⟨rfl, rfl, rfl, rfl, rfl, rfl⟩
    obtain ⟨m, hm, hgm⟩ := hdropped.mapping hi.lists ha
    obtain ⟨t', hun, hlocks, hcount, hbook⟩ := unregister_serves hit hm hgm hg
    refine ⟨t', (free_leave_last_eq hi ha hc hfree hzero).trans hun, hlocks, hcount, ?_⟩
    rw [hbook, book_drop hi hit (leader_of_released hdropped) (hdropped.held hi ha)]
  · rw [if_neg fun h => hzero (hempty.mp h)]
    have hweight : ¬cpumask_weight (a.leave c.cpu).cpumask = 0 :=
      fun h => hzero ((weight_eq_zero_iff _).mp h)
    have hmicro : Micro l c (fun _ => True) t (with_left c cmg tm a t) :=
      .leave_blade tm cmg a hg ha hc hmem hfree hzero
    have hgrant : (with_left c cmg tm a t).dev.book l =
        (t.dev.book l).grant a.place ((a.leave c.cpu).lease l tm.group) :=
      book_store hi (hmicro.inv hi) (leader_store_alloc t.dev tm (a.leave c.cpu))
        (a.place_leave c.cpu) (hi.held_store ha (a.place_leave c.cpu))
    rw [hleave] at hgrant
    refine ⟨with_left c cmg tm a t, by rw [free_leave_eq, if_neg hweight], rfl, rfl, ?_⟩
    have hhas := Book.hasLease_grant (t.dev.book l) a.place ((a.lease l tm.group).without c.cpu)
    rw [← hg, hgrant]
    exact (Book.retire_of_hasLease hhas).symm

/-- BB_FREE by another thread of the group. -/
theorem free_other_serves (hi : Inv l s.dev) (hlock : s.locks = Locks.free)
    (hm : m ∈ s.dev.task_list) (hg : m.group = c.task.tgid) (ha : a ∈ m.allocs)
    (hc : a.cmg = cmg.val) (hpid : c.task.pid ≠ m.task.pid) :
    ∃ s', oss_a64fx_hwb_free c cmg.val a.blade s = .ok (0, s') ∧ s'.manager l =
      { s.manager l with
        book := ((s.dev.book l).withdraw a.place (a.lease l m.group) c.cpu).retire
          c.task.tgid } := by
  have hheld : Held s.dev m.group a := ⟨m, hm, rfl, ha⟩
  by_cases hmem : a.cpumask.getLsbD c.cpu = true
  · obtain ⟨y, t, heq, hit, hy, hplace, hlocks, hcount, hfree, hlease, hbook⟩ :=
      @withdraw_eq hw l c { s with locks := Locks.dev_held } m a cmg hi hg hheld hmem
    have hmask : y.cpumask.getLsbD c.cpu = true := by
      have hmembers := congrArg (fun L => c.cpu ∈ L.members) hlease
      exact hmembers.mpr hmem
    have hcy : y.cmg = cmg.val := (congrArg Prod.fst hplace).trans hc
    obtain ⟨t', hleave, hlocks', hcount', hbook'⟩ := leave_serves hit hg hy hcy hmask hfree
    refine ⟨{ t' with locks := Locks.free },
      free_other_eq hi hlock hm hg ha hc hpid (heq.trans hleave) (hlocks'.trans hlocks), ?_⟩
    have hmem' : c.cpu ∈ (a.lease l m.group).members := hmem
    rw [hbook, hplace, hlease, Book.withdraw_seated _ a.place hmem'] at hbook'
    simp only [Kernel.manager, hbook']
    rw [show t'.dev.active_count = s.dev.active_count from hcount'.trans hcount]
  · -- a CPU that takes no part: nothing changes
    have hwith : oss_a64fx_hwb_free_withdraw c cmg m a { s with locks := Locks.dev_held } =
        .ok (get_cpu { s with locks := Locks.dev_held }) := by
      unfold oss_a64fx_hwb_free_withdraw
      simp only [Machine.read_peinfo, cpumask_test_cpu, Bool.eq_false_iff.mpr hmem,
        Bool.false_eq_true, if_false]
      rfl
    refine ⟨_, free_other_eq hi hlock hm hg ha hc hpid hwith rfl, ?_⟩
    have hnone : c.cpu ∉ (a.lease l m.group).members := hmem
    have hhas : (s.dev.book l).HasLease c.task.tgid := hi.hasLease_iff.mpr ⟨a, m, hm, hg, ha⟩
    unfold Book.withdraw
    rw [if_neg hnone, Book.retire_of_hasLease hhas]
    rfl

/-- **BB_FREE.** -/
theorem free_serves (hi : Inv l s.dev) (hlock : s.locks = Locks.free) (hrange : e.CmgInRange)
    {arg : UserArg fujitsu_hwb_ioc_bb_ctl} (he : e.request = .ioctl (.BB_FREE arg)) :
    ∃ reply s', handle e s = .ok (reply, s') ∧
      (s.manager l).free e.call arg = (reply, s'.manager l) := by
  unfold Manager.free
  cases hread : arg.read with
  | none => exact ⟨_, s, handle_unread (Or.inr (Or.inr ⟨arg, he, hread⟩)), rfl⟩
  | some ioc =>
      obtain ⟨cmg, hcmg⟩ : ∃ cmg : Fin MAX_NUM_CMG, cmg.val = ioc.cmg.toNat :=
        ⟨⟨ioc.cmg.toNat, hrange arg ioc he hread⟩, rfl⟩
      rw [free_event_map he hread, ← hcmg]
      cases hlease : (s.manager l).book.leaseOf e.call.task.tgid (cmg.val, ioc.bb.toNat) with
      | none =>
          have hno := hi.leaseOf_eq_none.mp hlease
          rw [free_missing hi.table hlock cmg ioc.bb.toNat fun a ha hc hb => hno a ha (by
            rw [a64fx_task_allocation.place, hc]
            exact congrArg (Prod.mk cmg.val) (by omega))]
          refine ⟨free_reply arg ioc (-EINVAL), s, rfl, ?_⟩
          simp only [← hcmg, hlease]
      | some L =>
          obtain ⟨a, ⟨m, hm, hg, ha⟩, hp, rfl⟩ := hi.leaseOf_eq_some.mp hlease
          have hc : a.cmg = cmg.val := congrArg Prod.fst hp
          have hb : a.blade = ioc.bb.toNat := congrArg Prod.snd hp
          have hleader : (s.manager l).book.leader e.call.task.tgid = some m.task.pid := by
            rw [← hg]
            exact leader_of_mapping hi.lists hm
          simp only [← hcmg, hlease, hleader, Option.some_inj]
          by_cases hpid : e.call.task.pid = m.task.pid
          · obtain ⟨s', hfree, hserve⟩ := free_owner_serves hi hlock hm hg ha hc hpid
            rw [hb] at hfree
            refine ⟨free_reply arg ioc 0, s', by rw [hfree]; rfl, ?_⟩
            rw [if_pos hpid.symm, hserve, hp]
            rfl
          · obtain ⟨s', hfree, hserve⟩ := free_other_serves hi hlock hm hg ha hc hpid
            rw [hb] at hfree
            refine ⟨free_reply arg ioc 0, s', by rw [hfree]; rfl, ?_⟩
            rw [if_neg (Ne.symm hpid), hserve, hp, hg]
            rfl

end A64fxHwb
