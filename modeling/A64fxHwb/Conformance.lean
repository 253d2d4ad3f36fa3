/-
The window requests, close and RESET against the service, and whole runs.

A BW_ASSIGN or a BW_UNASSIGN acts on what it sees (`Caller.lean`), and what it sees is
what the book says of the caller's CPU. With the requests of `Refinement.lean` every
event of the driver is one service of the manager, so that a run of the driver is a run
of the manager with the same replies.
-/
import A64fxHwb.Refinement

set_option autoImplicit false

namespace A64fxHwb

open BitWord Leasing Relation Runs

variable {hw : Machine} {l : Load hw} {c : Call hw} {e : Event hw} {s s' t : Kernel}
variable {m : a64fx_task_mapping} {a : a64fx_task_allocation} {reply : Reply}

/-! ## What a window request sees -/

/-- The caller sees the allocation its group has for the blade, -/
theorem view_of_held (hi : Inv l s.dev) {blade : ℕ} (ha : Held s.dev c.task.tgid a)
    (hp : a.place = ((hw.cmg c.cpu).val, blade)) :
    (view c blade s).mapped = true ∧
      (view c blade s).found = some (a.cpumask.getLsbD c.cpu, a.window (hw.slot c.cpu)) := by
  obtain ⟨m, hm, hg, hmem⟩ := ha
  have hget := hi.lists.get_taskmap hm hg
  have halloc : get_allocation (s.dev.cmgs (hw.cmg c.cpu)) m blade = some a := by
    rw [get_allocation_lookup hi.table, ← hp]
    exact Keyed.lookup_of_mem (hi.lists.mapping m hm).places hmem
  simp only [view, hget, Option.isSome_some, Option.bind_some, halloc, Option.map_some, and_self]

/-- and nothing if it has none. -/
theorem view_of_none (hi : Inv l s.dev) {blade : ℕ}
    (h : (s.dev.book l).leaseOf c.task.tgid ((hw.cmg c.cpu).val, blade) = none) :
    (view c blade s).found = none := by
  have hno := hi.leaseOf_eq_none.mp h
  unfold view
  cases hget : get_taskmap s.dev c.task with
  | none => rfl
  | some m =>
      obtain ⟨hm, hg⟩ := mem_of_get_taskmap hget
      have halloc : get_allocation (s.dev.cmgs (hw.cmg c.cpu)) m blade = none := by
        rw [get_allocation_lookup hi.table]
        exact Keyed.lookup_eq_none.mpr fun a ha => hno a ⟨m, hm, hg, ha⟩
      simp only [Option.bind_some, halloc, Option.map_none]

/-- The group has a mapping when somebody leads it. -/
theorem view_mapped (c : Call hw) (blade : ℕ) (s : Kernel) :
    (view c blade s).mapped = true ↔ (s.dev.book l).leader c.task.tgid ≠ none := by
  rw [show (s.dev.book l).leader c.task.tgid = (get_taskmap s.dev c.task).map fun m => m.task.pid
    from rfl]
  cases hget : get_taskmap s.dev c.task with
  | none => simp [view, hget]
  | some m => simp [view, hget]

/-! ## BW_ASSIGN -/

/-- The number the driver comes to, and the window of the service. -/
theorem window_for_eq (hs : Accounted l s) (ha : Held s.dev c.task.tgid a)
    (hc : a.cmg = (hw.cmg c.cpu).val) (hon : l.online.getLsbD c.cpu = true) {window : ℤ}
    (hlt : window < 64) {g : ℕ} :
    (oss_a64fx_hwb_assign_window c window (a.window (hw.slot c.cpu))
        ((s.dev.cmgs (hw.cmg c.cpu)).pe_map (hw.slot c.cpu)).bw_map = .ok none ∧
      (s.manager l).window_for c window (a.lease l g) = .error (-EINVAL)) ∨
    ∃ chosen, oss_a64fx_hwb_assign_window c window (a.window (hw.slot c.cpu))
        ((s.dev.cmgs (hw.cmg c.cpu)).pe_map (hw.slot c.cpu)).bw_map = .ok (some chosen) ∧
      (s.manager l).window_for c window (a.lease l g) =
        if 0 ≤ chosen ∧ chosen < MAX_BW_PER_CMG ∧
          s.dev.bw (hw.cmg c.cpu) (hw.slot c.cpu) chosen.toNat = false
        then .ok chosen.toNat else .error (-ENODEV) := by
  have huse := hs.inv.inUse_iff hs.covered hon
  rw [assign_window_eq hs.inv ha hc hon hlt]
  unfold Manager.window_for
  by_cases hneg : window < 0
  · refine Or.inr ?_
    have hsearch : lowestFree ((s.manager l).book.InUse c.cpu) MAX_BW_PER_CMG =
        lowestFree (fun w => ((s.dev.cmgs (hw.cmg c.cpu)).pe_map
          (hw.slot c.cpu)).bw_map.getLsbD w = true) MAX_BW_PER_CMG :=
      lowestFree_congr fun w _ => huse w
    rw [if_pos hneg, if_pos hneg, hsearch, lowestFree_eq]
    refine ⟨_, rfl, ?_⟩
    rcases (hs.inv.sane _ a ha).records_or_none hon hc.symm with ⟨w, hw4, hr⟩ | hnone
    · -- the recorded window is in use, so it is refused
      have hseat : (a.lease l g).seat c.cpu = some w := a64fx_task_allocation.seat_eq_some.mpr hr
      have hbit := hs.inv.bw_of_records ha hr
      have hne : a.window (hw.slot c.cpu) ≠ A64FX_HWB_UNASSIGNED_WIN := by
        rw [hr.2.2]
        show (w : ℤ) ≠ -1
        omega
      have hcond : ¬(0 ≤ (w : ℤ) ∧ (w : ℤ) < MAX_BW_PER_CMG ∧
          s.dev.bw (hw.cmg c.cpu) (hw.slot c.cpu) (w : ℤ).toNat = false) := by
        rintro ⟨-, -, hfree⟩
        rw [Int.toNat_natCast, hbit] at hfree
        exact Bool.noConfusion hfree
      rw [if_neg hne, hseat, hr.2.2, if_neg hcond]
    · have hseat : (a.lease l g).seat c.cpu = none :=
        a64fx_task_allocation.seat_eq_none.mpr fun w hr => by
          have hval := hr.2.2
          rw [hnone] at hval
          change (-1 : ℤ) = w at hval
          omega
      rw [if_pos hnone, hseat]
      by_cases hlow : firstZero ((s.dev.cmgs (hw.cmg c.cpu)).pe_map (hw.slot c.cpu)).bw_map
          MAX_BW_PER_CMG < MAX_BW_PER_CMG
      · have hfree := (firstZero_spec hlow).1
        rw [if_pos hlow, if_pos ⟨by omega, by exact_mod_cast hlow, hfree⟩]
        rfl
      · rw [if_neg hlow, if_neg]
        rintro ⟨-, h4, -⟩
        exact hlow (by exact_mod_cast h4)
  · rw [if_neg hneg, if_neg hneg]
    have huse' : (s.manager l).book.InUse c.cpu window.toNat ↔
        s.dev.bw (hw.cmg c.cpu) (hw.slot c.cpu) window.toNat = true := huse window.toNat
    by_cases hbit : s.dev.bw (hw.cmg c.cpu) (hw.slot c.cpu) window.toNat = true
    · exact Or.inl ⟨by rw [if_pos hbit], by rw [if_pos (huse'.mpr hbit)]⟩
    · refine Or.inr ⟨window, by rw [if_neg hbit], ?_⟩
      rw [if_neg fun h => hbit (huse'.mp h)]
      by_cases h4 : window < MAX_BW_PER_CMG
      · rw [if_pos h4, if_pos ⟨not_lt.mp hneg, h4, Bool.eq_false_iff.mpr hbit⟩]
      · rw [if_neg h4, if_neg fun h => h4 h.2.1]

/-- The state in which the window is taken stands for the book with the CPU seated. -/
theorem manager_taken (hi : Inv l s.dev) (hm : m ∈ s.dev.task_list) (hg : m.group = c.task.tgid)
    (ha : a ∈ m.allocs) (hc : a.cmg = (hw.cmg c.cpu).val) (hon : l.online.getLsbD c.cpu = true)
    (hmem : a.cpumask.getLsbD c.cpu = true) {w : ℕ} (hw4 : w < MAX_BW_PER_CMG)
    (hfree : s.dev.bw (hw.cmg c.cpu) (hw.slot c.cpu) w = false) :
    (taken c m c.cpu w a s).manager l =
      { s.manager l with
        book := (s.dev.book l).grant a.place ((a.lease l m.group).seated c.cpu (some w)) } := by
  have hheld : Held s.dev m.group a := ⟨m, hm, rfl, ha⟩
  have hmicro : Micro l c (fun _ => True) s (taken c m c.cpu w a s) :=
    .take_window m a c.cpu w hg hheld hon hc.symm hmem hw4 hfree (Or.inr trivial)
  have hplace := a.place_take (hw.slot c.cpu) c.cpu w
  have hbook := book_store (d := s.dev) hi (hmicro.inv hi)
    (leader_store_alloc (s.dev.with_cmg _ _) m _) hplace (hi.held_store hheld hplace)
  rw [a64fx_task_allocation.lease_take hon hc.symm] at hbook
  simp only [Kernel.manager, hbook]
  rfl

/-- **BW_ASSIGN.** -/
theorem assign_serves (hs : Accounted l s) {arg : UserArg fujitsu_hwb_ioc_bw_ctl}
    (he : e.request = .ioctl (.BW_ASSIGN arg)) (hwin : e.WindowInRange)
    (hok : handle e s = .ok (reply, s')) :
    (s.manager l).assign e.call arg = (reply, s'.manager l) := by
  have hi := hs.inv
  unfold Manager.assign
  cases hread : arg.read with
  | none =>
      rw [handle_unread (Or.inl ⟨arg, he, hread⟩)] at hok
      cases hok
      rfl
  | some ioc =>
      have hlt := hwin arg ioc he hread
      rw [assign_event_eq he hread, assign_blade_decision hi hs.locks] at hok
      unfold assign_decision at hok
      by_cases hweight : cpumask_weight e.call.cpus_mask > 1
      · simp only [if_pos hweight] at hok ⊢
        cases hok
        rfl
      simp only [if_neg hweight] at hok ⊢
      cases hlease : (s.manager l).book.leaseOf e.call.task.tgid
          ((hw.cmg e.call.cpu).val, ioc.bb.toNat) with
      | none =>
          rw [view_of_none hi hlease] at hok
          cases hok
          rfl
      | some L =>
          obtain ⟨a, ha, hp, rfl⟩ := hi.leaseOf_eq_some.mp hlease
          rw [(view_of_held hi ha hp).2] at hok
          by_cases hmem : a.cpumask.getLsbD e.call.cpu = true
          swap
          · simp only [if_neg hmem] at hok
            cases hok
            exact if_neg hmem
          have hmem' : e.call.cpu ∈ (a.lease l e.call.task.tgid).members := hmem
          simp only [if_pos hmem, if_pos hmem'] at hok ⊢
          cases hon : l.online.getLsbD e.call.cpu with
          | false =>
              rw [hon] at hok
              cases hok
          | true =>
              have hc : a.cmg = (hw.cmg e.call.cpu).val := congrArg Prod.fst hp
              have hb : a.blade = ioc.bb.toNat := congrArg Prod.snd hp
              have hmap : (view e.call ioc.bb.toNat s).bw_map =
                  ((s.dev.cmgs (hw.cmg e.call.cpu)).pe_map (hw.slot e.call.cpu)).bw_map := rfl
              simp only [hon, if_true] at hok
              rcases window_for_eq hs ha hc hon hlt (g := e.call.task.tgid) with
                ⟨hnone, herr⟩ | ⟨chosen, hsome, hfor⟩
              · rw [← hmap] at hnone
                simp only [hnone, Loops.ok_bind] at hok
                cases hok
                rw [herr]
                rfl
              · rw [← hmap] at hsome
                simp only [hsome, Loops.ok_bind] at hok
                have hiff : (0 ≤ chosen ∧ chosen < MAX_BW_PER_CMG ∧
                      (view e.call ioc.bb.toNat s).bw_map.getLsbD chosen.toNat = false) ↔
                    0 ≤ chosen ∧ chosen < MAX_BW_PER_CMG ∧
                      s.dev.bw (hw.cmg e.call.cpu) (hw.slot e.call.cpu) chosen.toNat = false :=
                  Iff.rfl
                rw [hfor]
                by_cases hcond : 0 ≤ chosen ∧ chosen < MAX_BW_PER_CMG ∧
                    s.dev.bw (hw.cmg e.call.cpu) (hw.slot e.call.cpu) chosen.toNat = false
                · rw [if_pos (hiff.mpr hcond)] at hok
                  obtain ⟨m, hm, hg, hmem_a⟩ := ha
                  have h4 : chosen < 4 := hcond.2.1
                  have hw4 : chosen.toNat < 4 := by omega
                  have htaken := manager_taken hi hm hg hmem_a hc hon hmem hw4 hcond.2.2
                  rw [taken_eq_apply hi.lists hm hg hmem_a hc
                    (hi.sane _ a ⟨m, hm, rfl, hmem_a⟩).blade_lt hw4, hb, hp, hg] at htaken
                  cases hok
                  simp only [if_pos hcond, Int.toNat_of_nonneg hcond.1]
                  exact congrArg _ htaken.symm
                · rw [if_neg fun h => hcond (hiff.mp h)] at hok
                  cases hok
                  rw [if_neg hcond]
                  rfl

/-! ## BW_UNASSIGN -/

/-- The state in which the window is given back stands for the book without the seat. -/
theorem manager_give_back (hi : Inv l s.dev) (hm : m ∈ s.dev.task_list)
    (hg : m.group = c.task.tgid) (ha : a ∈ m.allocs) {w : ℕ} (hr : Records l a c.cpu w) :
    (give_back c m c.cpu w a s).manager l =
      { s.manager l with
        book := (s.dev.book l).grant a.place ((a.lease l m.group).seated c.cpu none) } := by
  have hheld : Held s.dev m.group a := ⟨m, hm, rfl, ha⟩
  have hmicro : Micro l c (fun _ => True) s (give_back c m c.cpu w a s) :=
    .give_window m a c.cpu w w _ hg hheld hr (Or.inl rfl)
  have hplace := a.place_give (hw.slot c.cpu) c.cpu
  have hbook := book_store (d := s.dev) hi (hmicro.inv hi)
    (leader_store_alloc (s.dev.with_cmg _ _) m _) hplace (hi.held_store hheld hplace)
  rw [a64fx_task_allocation.lease_give hr.1 hr.2.1] at hbook
  simp only [Kernel.manager, hbook]
  rfl

/-- **BW_UNASSIGN.** The register of a recorded window names the blade, so the test of
the register never fails. -/
theorem unassign_serves (hs : Accounted l s) {arg : UserArg fujitsu_hwb_ioc_bw_ctl}
    (he : e.request = .ioctl (.BW_UNASSIGN arg)) (hok : handle e s = .ok (reply, s')) :
    (s.manager l).unassign e.call arg = (reply, s'.manager l) := by
  have hi := hs.inv
  unfold Manager.unassign
  cases hread : arg.read with
  | none =>
      rw [handle_unread (Or.inr (Or.inl ⟨arg, he, hread⟩))] at hok
      cases hok
      rfl
  | some ioc =>
      rw [unassign_event_eq he hread, unassign_blade_decision hi hs.locks] at hok
      unfold unassign_decision at hok
      by_cases hweight : cpumask_weight e.call.cpus_mask > 1
      · simp only [if_pos hweight] at hok ⊢
        cases hok
        rfl
      simp only [if_neg hweight] at hok ⊢
      have hmapped := view_mapped (l := l) e.call ioc.bb.toNat s
      by_cases hleader : (s.manager l).book.leader e.call.task.tgid = none
      · rw [Bool.eq_false_iff.mpr fun h => hmapped.mp h hleader] at hok
        cases hok
        exact if_pos hleader
      rw [hmapped.mpr hleader] at hok
      rw [if_neg hleader]
      cases hlease : (s.manager l).book.leaseOf e.call.task.tgid
          ((hw.cmg e.call.cpu).val, ioc.bb.toNat) with
      | none =>
          rw [view_of_none hi hlease] at hok
          cases hok
          rfl
      | some L =>
          obtain ⟨a, ha, hp, rfl⟩ := hi.leaseOf_eq_some.mp hlease
          have hc : a.cmg = (hw.cmg e.call.cpu).val := congrArg Prod.fst hp
          have hb : a.blade = ioc.bb.toNat := congrArg Prod.snd hp
          rw [(view_of_held hi ha hp).2] at hok
          cases hon : l.online.getLsbD e.call.cpu with
          | false =>
              rw [hon] at hok
              cases hok
          | true =>
              simp only [hon, if_true] at hok
              rcases (hi.sane _ a ha).records_or_none hon hc.symm with ⟨w, hw4, hr⟩ | hnone
              · have hseat : (a.lease l e.call.task.tgid).seat e.call.cpu = some w :=
                  a64fx_task_allocation.seat_eq_some.mpr hr
                obtain ⟨-, hnamed⟩ :=
                  hs.agree.recorded a (mem_allocs.mpr ⟨_, ha⟩) e.call.cpu w hr
                have hcond : 0 ≤ (w : ℤ) ∧ ((view e.call ioc.bb.toNat s).wr (w : ℤ).toNat &&&
                    A64FX_HWB_ASSIGN_BB_MASK).toNat = ioc.bb.toNat := ⟨by omega, hnamed.trans hb⟩
                rw [hr.2.2, if_pos hcond] at hok
                obtain ⟨m, hm, hg, hmem⟩ := ha
                have hgiven := manager_give_back hi hm hg hmem hr
                rw [give_back_eq_apply hi.lists hm hg hmem hc hw4, hb, hp, hg] at hgiven
                cases hok
                simp only [Option.filter_some, hseat, Option.isSome_some, if_true]
                exact congrArg _ hgiven.symm
              · have hseat : (a.lease l e.call.task.tgid).seat e.call.cpu = none :=
                  a64fx_task_allocation.seat_eq_none.mpr fun w hr => by
                    have hval := hr.2.2
                    rw [hnone] at hval
                    change (-1 : ℤ) = w at hval
                    omega
                rw [hnone, if_neg fun h => absurd h.1 (by decide)] at hok
                cases hok
                simp only [Option.filter_some, hseat, Option.isSome_none, Bool.false_eq_true,
                  if_false]
                rfl

/-! ## Close and RESET -/

/-- **A close.** -/
theorem close_serves (hi : Inv l s.dev) (hlock : s.locks = Locks.free)
    (he : e.request = .close) :
    ∃ s', handle e s = .ok ({ err := 0 }, s') ∧ s'.manager l = (s.manager l).close e.call := by
  obtain ⟨s', hclose, hpath, -, -, hcount, hlist⟩ := close_spec (c := e.call) (fun _ => True) hi
    hlock trivial fun _ _ _ _ _ => Or.inr trivial
  have hi' := path_inv hi hpath
  refine ⟨s', by unfold handle; rw [he]; exact hclose, ?_⟩
  -- the thread leads its group when it is the one in the mapping
  have hleads : (s.dev.book l).leader e.call.task.tgid = some e.call.task.pid ↔
      ∃ m ∈ s.dev.task_list, m.group = e.call.task.tgid ∧ e.call.task.pid = m.task.pid := by
    rw [show (s.dev.book l).leader e.call.task.tgid = s.dev.leader e.call.task.tgid from rfl,
      leader_eq_some hi.lists]
    simp only [eq_comm]
  unfold Manager.close Kernel.manager
  by_cases hpos : s.dev.active_count > 0
  · rw [if_pos hpos] at hcount
    simp only [if_pos hpos, hcount]
    by_cases hown : (s.dev.book l).leader e.call.task.tgid = some e.call.task.pid
    · rw [if_pos ⟨hpos, hleads.mp hown⟩] at hlist
      rw [if_pos hown, book_erase hi hi' hlist]
    · rw [if_neg fun h => hown (hleads.mpr h.2)] at hlist
      rw [if_neg hown]
      have hsame : s'.dev.book l = s.dev.book l := by
        unfold a64fx_hwb_device.book a64fx_hwb_device.leader a64fx_hwb_device.lease
        rw [hlist]
      rw [hsame]
  · rw [if_neg hpos] at hcount
    rw [if_neg fun h => hpos h.1] at hlist
    have hsame : s'.dev.book l = s.dev.book l := by
      unfold a64fx_hwb_device.book a64fx_hwb_device.leader a64fx_hwb_device.lease
      rw [hlist]
    simp only [if_neg hpos, hcount, hsame]

/-- **RESET** leaves an empty book. -/
theorem reset_serves (l : Load hw) (hlock : s.locks = Locks.free)
    (he : e.request = .ioctl .RESET) :
    ∃ s', handle e s = .ok ({ err := -ENOTTY }, s') ∧
      s'.manager l = { book := Book.empty, files := 0 } := by
  refine ⟨{ on_each_cpu e.call (asm_reset_func hw) 0 s with dev := s.dev.reset }, ?_, rfl⟩
  unfold handle oss_a64fx_hwb_ioctl
  simp only [he, reset_eq hlock, Loops.ok_bind]
  rfl

/-! ## One event -/

/-- **Every event is a service.** In a state that is accounted for, the driver replies as
the manager it stands for, and leaves a state that stands for what the service leaves. -/
theorem serve_of_handle (hs : Accounted l s) (hrange : e.CmgInRange) (hwin : e.WindowInRange)
    (hok : handle e s = .ok (reply, s')) : serve l e (s.manager l) = (reply, s'.manager l) := by
  -- a handler that is known to return has returned just that
  have hsame : ∀ {r t}, handle e s = .ok (r, t) → (r, t.manager l) = (reply, s'.manager l) := by
    intro r t h
    rw [hok] at h
    cases h
    rfl
  unfold serve
  cases he : e.request with
  | «open» =>
      have hopen : handle e s = .ok ({ err := 0 },
          { s with dev := { s.dev with active_count := s.dev.active_count + 1 } }) := by
        unfold handle oss_a64fx_hwb_open
        simp only [he, spin_lock_dev_free hs.locks, Loops.ok_bind, spin_unlock_dev_held]
        rw [← hs.locks]
        rfl
      exact hsame hopen
  | close =>
      obtain ⟨t, hclose, hserve⟩ := close_serves hs.inv hs.locks he
      rw [← hsame hclose, hserve]
  | ioctl ioc =>
      cases ioc with
      | GET_PE_INFO arg =>
          have hinfo : handle e s = .ok (peinfo_reply e.call arg, s) := by
            unfold handle oss_a64fx_hwb_ioctl oss_a64fx_hwb_get_peinfo_ioctl peinfo_reply
            simp only [he, Machine.read_peinfo]
            cases arg.read with
            | none => rfl
            | some x => cases arg.writable with
              | true => rfl
              | false => rfl
          exact hsame hinfo
      | BW_ASSIGN arg => exact assign_serves hs he hwin hok
      | BW_UNASSIGN arg => exact unassign_serves hs he hok
      | BB_ALLOC arg =>
          obtain ⟨r, t, halloc, hserve⟩ := alloc_serves hs.inv hs.locks he
          exact hserve.trans (hsame halloc)
      | BB_FREE arg =>
          obtain ⟨r, t, hfree, hserve⟩ := free_serves hs.inv hs.locks hrange he
          exact hserve.trans (hsame hfree)
      | RESET =>
          obtain ⟨t, hreset, hserve⟩ := reset_serves l hs.locks he
          rw [← hsame hreset, hserve]
      | other =>
          have hother : handle e s = .ok ({ err := -ENOTTY }, s) := by
            unfold handle oss_a64fx_hwb_ioctl
            simp only [he]
          exact hsame hother

/-! ## Cautious requests -/

/-- A request that the bookkeeping survives, in terms of the book: the caller runs on a CPU
of the table, and all of these are online. The numbers are in range. No CPU that has a
window is given another one for the same blade, and a CPU that leaves a blade without its
leader has window 0 there, if it has one. -/
structure Cautious (l : Load hw) (e : Event hw) (m : Manager) : Prop where
  cpu : l.online.getLsbD e.call.cpu = true
  online : e.TableOnline l
  cmg : e.CmgInRange
  window : e.WindowInRange
  assign : ∀ arg ioc L, e.request = .ioctl (.BW_ASSIGN arg) → arg.read = some ioc →
    m.book.leaseOf e.call.task.tgid ((hw.cmg e.call.cpu).val, ioc.bb.toNat) = some L →
    L.seat e.call.cpu ≠ none → ∀ w, m.window_for e.call ioc.window.toInt L ≠ .ok w
  free : ∀ arg ioc L w, e.request = .ioctl (.BB_FREE arg) → arg.read = some ioc →
    m.book.leaseOf e.call.task.tgid (ioc.cmg.toNat, ioc.bb.toNat) = some L →
    m.book.leader e.call.task.tgid ≠ some e.call.task.pid → L.seat e.call.cpu = some w → w = 0

/-- What a run without the two slips leaves is accounted for. -/
theorem accounted_of_run (h : (driver l AllInvalid).ReachableVia (KeepsRegisters l) s) :
    Accounted l s := by
  obtain ⟨hi, hlock⟩ := reachable_inv h.reachable
  have hwindows := windowsAccounted_of_run (h.mono fun s e hk => hk.2.1)
  exact ⟨hi, hlock, hwindows.covered, registersAgree_of_run h⟩

/-- A cautious request makes neither of the two slips. -/
theorem Cautious.keepsRegisters (hs : Accounted l s) (h : Cautious l e (s.manager l)) :
    KeepsRegisters l s e := by
  have hi := hs.inv
  refine ⟨h.online, ?_, ?_⟩
  · rintro ⟨arg, ioc, m, a, he, hread, -, hget, halloc, -, -, hwin, w, hw4, hexp, hbit⟩
    obtain ⟨hm, hg⟩ := mem_of_get_taskmap hget
    obtain ⟨ha, hc, hb⟩ := get_allocation_eq_some hi.table halloc
    have hheld : Held s.dev e.call.task.tgid a := ⟨m, hm, hg, ha⟩
    have hp : a.place = ((hw.cmg e.call.cpu).val, ioc.bb.toNat) :=
      Prod.ext hc (Int.natCast_inj.mp hb)
    have hlease := hi.leaseOf_eq_some.mpr ⟨a, hheld, hp, rfl⟩
    obtain ⟨w₀, -, hr⟩ := ((hi.sane _ a hheld).records_or_none h.cpu hc.symm).resolve_right hwin
    have hseat : (a.lease l e.call.task.tgid).seat e.call.cpu ≠ none := by
      rw [show (a.lease l e.call.task.tgid).seat e.call.cpu = some w₀ from
        a64fx_task_allocation.seat_eq_some.mpr hr]
      exact Option.some_ne_none w₀
    -- the window that is asked for is free, so the CPU would get it
    refine h.assign arg ioc _ he hread hlease hseat w ?_
    have hfree : ¬(s.manager l).book.InUse e.call.cpu w := by
      intro huse
      rw [(hi.inUse_iff hs.covered h.cpu w).mp huse] at hbit
      exact Bool.noConfusion hbit
    unfold Manager.window_for
    rw [hexp, if_neg (by omega), Int.toNat_natCast, if_neg hfree, if_pos (by exact_mod_cast hw4)]
  · rintro ⟨m, cmg, a, ⟨arg, ioc, he, hread, hcmg, hget, halloc⟩, hpid, hassign, hwin⟩
    obtain ⟨hm, hg⟩ := mem_of_get_taskmap hget
    obtain ⟨ha, hc, hb⟩ := get_allocation_eq_some hi.table halloc
    have hheld : Held s.dev e.call.task.tgid a := ⟨m, hm, hg, ha⟩
    have hp : a.place = (ioc.cmg.toNat, ioc.bb.toNat) :=
      Prod.ext (hc.trans hcmg.symm) (Int.natCast_inj.mp hb)
    have hlease := hi.leaseOf_eq_some.mpr ⟨a, hheld, hp, rfl⟩
    obtain ⟨w, -, hr⟩ := (hi.sane _ a hheld).recorded hassign
    have hleader : (s.manager l).book.leader e.call.task.tgid ≠ some e.call.task.pid := by
      rw [← hg, show (s.manager l).book.leader m.group = some m.task.pid from
        leader_of_mapping hi.lists hm]
      exact fun h' => hpid (Option.some_inj.mp h').symm
    have hw0 := h.free arg ioc _ w he hread hlease hleader
      (a64fx_task_allocation.seat_eq_some.mpr hr)
    refine hwin ?_
    rw [hr.2.2, hw0]
    rfl

/-- A cautious request is answered. -/
theorem Cautious.handled (hs : Accounted l s) (h : Cautious l e (s.manager l)) :
    ∃ reply s', handle e s = .ok (reply, s') := by
  have houtside : ¬FreesOutside e s := by
    rintro ⟨arg, ioc, he, hread, hge, -⟩
    have hlt := h.cmg arg ioc he hread
    omega
  have hbeyond : ¬ReadsBeyond e s := by
    rintro ⟨arg, ioc, m, a, he, hread, -, -, -, hge⟩
    have hlt := h.window arg ioc he hread
    omega
  have hentry : ¬NoEntry e s := by
    intro hno
    have hnone := hno.1
    rw [get_pemap_online hs.inv.table h.cpu] at hnone
    cases hnone
  obtain ⟨⟨reply, s'⟩, hok⟩ := handle_ok hs.inv hs.locks houtside hentry fun hr => absurd hr hbeyond
  exact ⟨reply, s', hok⟩

/-! ## Runs -/

/-- One cautious request to the driver, with its reply. -/
def Handles (l : Load hw) (s : Kernel) (y : Event hw × Reply) (s' : Kernel) : Prop :=
  Cautious l y.1 (s.manager l) ∧ handle y.1 s = .ok (y.2, s')

/-- One cautious request to the manager, with its reply. -/
def Serves (l : Load hw) (m : Manager) (y : Event hw × Reply) (m' : Manager) : Prop :=
  Cautious l y.1 m ∧ serve l y.1 m = (y.2, m')

/-- The states of cautious runs, with the manager they stand for. -/
def StandsFor (l : Load hw) (s : Kernel) (m : Manager) : Prop :=
  s.manager l = m ∧ (driver l AllInvalid).ReachableVia (KeepsRegisters l) s

theorem StandsFor.next {m : Manager} {y : Event hw × Reply} (h : StandsFor l s m)
    (hstep : Handles l s y s') : Serves l m y (s'.manager l) ∧ StandsFor l s' (s'.manager l) := by
  obtain ⟨rfl, hreach⟩ := h
  obtain ⟨hcautious, hok⟩ := hstep
  have hs := accounted_of_run hreach
  refine ⟨⟨hcautious, serve_of_handle hs hcautious.cmg hcautious.window hok⟩, rfl, ?_⟩
  exact .step hreach (hcautious.keepsRegisters hs) ⟨hcautious.cmg, y.2, hok⟩

/-- What the service answers, the driver answers. -/
theorem StandsFor.answer {m m' : Manager} {y : Event hw × Reply} (h : StandsFor l s m)
    (hstep : Serves l m y m') : ∃ s', Handles l s y s' ∧ StandsFor l s' m' := by
  obtain ⟨hcautious, hserve⟩ := hstep
  have hcautious' : Cautious l y.1 (s.manager l) := by
    rw [h.1]
    exact hcautious
  obtain ⟨reply, s', hok⟩ := hcautious'.handled (accounted_of_run h.2)
  obtain ⟨⟨-, hserve'⟩, hnext⟩ := h.next (y := (y.1, reply)) ⟨hcautious', hok⟩
  -- the service has one answer only
  obtain ⟨hreply, hm⟩ := Prod.mk.inj (hserve.symm.trans hserve')
  refine ⟨s', ⟨hcautious', ?_⟩, ?_⟩
  · rw [hok, hreply]
  · rw [hm]
    exact hnext

/-- A freshly loaded driver stands for an empty manager. -/
theorem StandsFor.loaded {regs : hwb_regs} (hR : AllInvalid regs) (hload : Loaded l regs s) :
    StandsFor l s { book := Book.empty, files := 0 } := by
  obtain ⟨htasks, -, hfiles, -⟩ := loaded_empty hload.packed
  refine ⟨?_, .init ⟨regs, hR, hload⟩⟩
  unfold Kernel.manager a64fx_hwb_device.book a64fx_hwb_device.leader a64fx_hwb_device.lease
  rw [hload.spec.1, htasks, hfiles]
  rfl

/-- A run of the driver, as one of the service. -/
theorem serves_of_handles {ys : List (Event hw × Reply)} {m : Manager} (hstart : StandsFor l s m)
    (h : Trace (Handles l) s ys t) : Trace (Serves l) m ys (t.manager l) ∧
      StandsFor l t (t.manager l) := by
  obtain ⟨m', hrun, hstand⟩ := h.lockstep (R := StandsFor l) hstart fun s m y s' hstand hstep =>
    ⟨s'.manager l, hstand.next hstep⟩
  rw [hstand.1]
  exact ⟨hrun, hstand⟩

/-- A run of the service, as one of the driver. -/
theorem handles_of_serves {ys : List (Event hw × Reply)} {m m' : Manager}
    (hstart : StandsFor l s m) (h : Trace (Serves l) m ys m') :
    ∃ t, Trace (Handles l) s ys t ∧ StandsFor l t m' :=
  h.lockstep (R := fun m s => StandsFor l s m) hstart
    fun _ _ _ _ hstand hstep => hstand.answer hstep

/-- **The driver is the manager.** From a load on, cautious requests are answered by the
driver just as the service answers them, to whatever length, and each state stands for the
manager the service has come to. -/
theorem driver_is_manager {regs : hwb_regs} (hR : AllInvalid regs) (hload : Loaded l regs s)
    (ys : List (Event hw × Reply)) (m : Manager) :
    Trace (Serves l) { book := Book.empty, files := 0 } ys m ↔
      ∃ t, Trace (Handles l) s ys t ∧ t.manager l = m := by
  have hstart := StandsFor.loaded hR hload
  constructor
  · intro h
    obtain ⟨t, hrun, hstand⟩ := handles_of_serves hstart h
    exact ⟨t, hrun, hstand.1⟩
  · rintro ⟨t, h, rfl⟩
    exact (serves_of_handles hstart h).1

/-! ## A run that is computed -/

/-- Requests that are cautious whatever the book says: no BB_FREE, and no BW_ASSIGN with an
explicit window. -/
def Event.mild (e : Event hw) : Bool :=
  match e.request with
  | .ioctl (.BB_FREE _) => false
  | .ioctl (.BW_ASSIGN arg) =>
    match arg.read with
    | some ioc => decide (ioc.window.toInt < 0)
    | none => true
  | _ => true

theorem cautious_of_mild (hmild : e.mild = true) (hcpu : l.online.getLsbD e.call.cpu = true)
    (hon : e.TableOnline l) (m : Manager) : Cautious l e m := by
  have hneg : ∀ arg ioc, e.request = .ioctl (.BW_ASSIGN arg) → arg.read = some ioc →
      ioc.window.toInt < 0 := by
    intro arg ioc he hread
    unfold Event.mild at hmild
    simp only [he, hread, decide_eq_true_eq] at hmild
    exact hmild
  have hfree : ∀ arg, e.request ≠ .ioctl (.BB_FREE arg) := by
    intro arg he
    unfold Event.mild at hmild
    simp [he] at hmild
  refine ⟨hcpu, hon, fun arg ioc he => absurd he (hfree arg), fun arg ioc he hread => ?_,
    fun arg ioc L he hread hlease hseat w hfor => ?_, fun arg ioc L w he => absurd he (hfree arg)⟩
  · have hlt := hneg arg ioc he hread
    omega
  · -- a CPU that has a window and asks for any is refused
    unfold Manager.window_for at hfor
    rw [if_pos (hneg arg ioc he hread)] at hfor
    cases hs : L.seat e.call.cpu with
    | none => exact hseat hs
    | some w₀ =>
        rw [hs] at hfor
        cases hfor

theorem handles_of_run {es : List (Event hw)} (hall : ∀ e ∈ es, ∀ m, Cautious l e m)
    (h : run es s = .ok t) : ∃ ys, ys.map Prod.fst = es ∧ Trace (Handles l) s ys t := by
  induction es generalizing s with
  | nil =>
      cases h
      exact ⟨[], rfl, .nil _⟩
  | cons e es ih =>
      unfold run at h
      rw [List.foldlM_cons, Loops.bind_eq_ok] at h
      obtain ⟨s', hstep, hrest⟩ := h
      obtain ⟨x, hx, rfl⟩ := Loops.map_eq_ok.mp hstep
      obtain ⟨ys, hys, hrun⟩ := ih (fun e he => hall e (List.mem_cons_of_mem _ he)) hrest
      refine ⟨(e, x.1) :: ys, by rw [List.map_cons, hys], .cons ⟨?_, hx⟩ hrun⟩
      exact hall e List.mem_cons_self _

/-- Two processes take blades and windows, one asks for a window twice, and the other gives
its window back and closes its file. -/
def two_processes : List (Event Quad.machine) :=
  [Quad.open Quad.first 0, Quad.alloc Quad.first 0 0x7, Quad.assign Quad.first 1 0 (-1),
    Quad.assign Quad.second 1 0 (-1), Quad.open Quad.other 3, Quad.alloc Quad.other 3 0xC,
    Quad.assign Quad.other 3 1 (-1), Quad.unassign Quad.other 3 1, Quad.close Quad.other 3]

theorem driver_is_manager_two_processes : ∃ ys t, ys.map Prod.fst = two_processes ∧
    Trace (Handles Quad.load) (after Quad.load []) ys t ∧
    Trace (Serves Quad.load) { book := Book.empty, files := 0 } ys (t.manager Quad.load) := by
  obtain ⟨s, hload, hrun⟩ :=
    run_of_succeeds (show succeeds Quad.load two_processes = true by decide +kernel)
  have hcautious : ∀ e ∈ two_processes, ∀ m, Cautious Quad.load e m := by
    intro e he m
    have htest : ∀ e ∈ two_processes, e.mild = true ∧ e.call.online = 0xF ∧
        Quad.load.online.getLsbD e.call.cpu = true := by decide
    obtain ⟨hmild, honline, hcpu⟩ := htest e he
    refine cautious_of_mild hmild hcpu (fun k hk => ?_) m
    rw [honline]
    exact hk
  obtain ⟨ys, hys, htrace⟩ := handles_of_run hcautious hrun
  have hstart : after Quad.load [] = s := after_eq_of_run hload rfl
  have hinvalid : AllInvalid hwb_regs.cleared := by
    intro k w
    exact BitVec.getLsbD_zero
  refine ⟨ys, after Quad.load two_processes, hys, by rw [hstart]; exact htrace, ?_⟩
  exact (driver_is_manager hinvalid hload ys _).mpr ⟨_, htrace, rfl⟩

end A64fxHwb
