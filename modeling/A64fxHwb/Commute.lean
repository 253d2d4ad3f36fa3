/-
Requests that do not get in each other's way.

Two requests of different groups that are about different CMGs are local to disjoint
cells, so they give the same replies in either order and leave the same state; only
the order of the mappings in `task_list` can differ, since a new one goes to the front.
Two BW_ASSIGN or BW_UNASSIGN calls from different CPUs do so even for one group and one
blade, and leave the very same state: each looks at and writes what belongs to its own
PE. A request can still go through a null pointer, on a CPU that was not online during
the load, and then it does in either order.
-/
import A64fxHwb.Locality
import A64fxHwb.Range
import A64fxHwb.Failure
import A64fxHwb.Caller

set_option autoImplicit false

namespace A64fxHwb

open BitWord Relation Runs Footprint

variable {hw : Machine} {l : Load hw} {c : Call hw} {R : hwb_regs → Prop} {e e₁ e₂ : Event hw}
variable {s s' t u v : Kernel} {i : Fin MAX_NUM_CMG}

/-! ## Between two requests -/

/-- A state between two requests. The table is the one the load left. -/
structure Settled (l : Load hw) (s : Kernel) : Prop where
  inv : Inv l s.dev
  locks : s.locks = Locks.free
  table : SameTable (loaded_device l) s.dev

theorem Settled.step (h : Settled l s) (hrange : e.CmgInRange) {reply : Reply}
    (hok : handle e s = .ok (reply, s')) : Settled l s' := by
  obtain ⟨hpath, hlock⟩ := handle_path h.inv h.locks hrange hok
  refine ⟨path_inv h.inv hpath, hlock, ?_⟩
  exact hpath.preserves (P := fun t => SameTable (loaded_device l) t.dev)
    (fun _ _ ht hm => ht.trans hm.sameTable) h.table

theorem settled_of_reachable (h : (driver l R).Reachable s) : Settled l s := by
  obtain ⟨hi, hlock⟩ := reachable_inv h
  refine ⟨hi, hlock, ?_⟩
  refine run_invariant (P := fun s => SameTable (loaded_device l) s.dev) ?_ ?_ h
  · rintro regs s - hload
    rw [hload.spec.1]
    exact .refl _
  · intro _ _ _ t t' _ ht hm
    exact ht.trans hm.sameTable

/-- `check_cpumask` looks at nothing but the table. -/
theorem check_cpumask_same {d d' : a64fx_hwb_device} (h : SameTable d d') (online m : cpumask_t) :
    check_cpumask online d' m = check_cpumask online d m := by
  -- the entries with what is not looked at taken out are the same
  let ids : a64fx_core_mapping → a64fx_core_mapping := fun pe =>
    ⟨pe.cpu_id, pe.cmg_id, pe.ppe_id, 0, fun _ => 0⟩
  have hids : (check_cpumask_pes d').map ids = (check_cpumask_pes d).map ids := by
    rw [check_cpumask_pes, check_cpumask_pes, List.map_flatMap, List.map_flatMap, h.num_cmgs]
    congr 1
    funext i
    rw [List.map_map, List.map_map, h.slots i]
    congr 1
    funext j
    obtain ⟨hcpu, hcmg, hppe⟩ := h.pe i j
    show ids ((d'.cmgs i).pe_map j) = ids ((d.cmgs i).pe_map j)
    simp only [ids, hcpu, hcmg, hppe]
  have hpes : ∀ cpu cmg, (check_cpumask_pes d').foldlM (check_cpumask_pe cpu) cmg =
      (check_cpumask_pes d).foldlM (check_cpumask_pe cpu) cmg := by
    intro cpu cmg
    have hloop : ∀ pes : List a64fx_core_mapping, (pes.map ids).foldlM (check_cpumask_pe cpu) cmg =
        pes.foldlM (check_cpumask_pe cpu) cmg := fun pes => List.foldlM_map
    rw [← hloop (check_cpumask_pes d'), ← hloop (check_cpumask_pes d), hids]
  have hcpu : check_cpumask_cpu online d' = check_cpumask_cpu online d := by
    funext cmg cpu
    rw [check_cpumask_cpu, check_cpumask_cpu, hpes]
  rw [check_cpumask, check_cpumask, hcpu]

/-! ## The cells of a request -/

/-- The CMG a request is about: the one of its mask, the one it names, or the one of the
caller's CPU. A request that is refused for its argument is about none. -/
def Targets (e : Event hw) (s : Kernel) (i : Fin MAX_NUM_CMG) : Prop :=
  match e.request with
  | .ioctl (.BB_ALLOC arg) => ∃ ioc mask, arg.read = some ioc ∧ arg.pemask = some mask ∧
      check_cpumask e.call.online s.dev (clean_cpumask mask) = i.val
  | .ioctl (.BB_FREE arg) => ∃ ioc, arg.read = some ioc ∧ ioc.cmg.toNat = i.val
  | .ioctl (.BW_ASSIGN _) => hw.cmg e.call.cpu = i
  | .ioctl (.BW_UNASSIGN _) => hw.cmg e.call.cpu = i
  | _ => False

/-- The cells of the caller's group and the CMG the request is about. -/
def Event.cells (e : Event hw) (s : Kernel) : Set Cell :=
  fun x => ∃ i, Targets e s i ∧ x ∈ footprint hw e.call.task.tgid i

/-- Two settled states with the same cells are where two runs can start. -/
theorem Settled.twins (hs : Settled l s) (ht : Settled l t) {g : ℕ}
    (h : cells.Agree (footprint hw g i) s t) : Twins l g i s t s t :=
  .start (agree_footprint.mp h) (hs.locks.trans ht.locks.symm) hs.inv.shape ht.inv.shape

/-- A function whose runs go side by side is local. -/
theorem local_of_twins {ρ ρ' : Type} {g : ℕ} {f : Kernel → Except Fault (ρ × Kernel)}
    (hf : ∀ s t, Settled l s → Twins l g i s t s t → Twin (TwinResults l g i s t) (f s) (f t))
    (reply : ρ → ρ') :
    cells.Local (Settled l) (footprint hw g i) fun s => (f s).map fun x => (reply x.1, x.2) := by
  intro s t hs ht hagree
  refine (hf s t hs (hs.twins ht hagree)).map fun x y hxy => ?_
  obtain ⟨hval, htwins⟩ := hxy
  exact ⟨congrArg reply hval, htwins.step⟩

/-- A CPU with a window in an allocation of a CMG sits on the CMG. -/
theorem cmg_of_assigned (hi : Inv l s.dev) {m : a64fx_task_mapping} {a : a64fx_task_allocation}
    {blade : ℤ} (hm : s.mapping c.task.tgid = some m)
    (ha : get_allocation (s.dev.cmgs i) m blade = some a)
    (hbit : a.assign_mask.getLsbD c.cpu = true) : hw.cmg c.cpu = i := by
  obtain ⟨hmem, hc, -⟩ := get_allocation_eq_some hi.table ha
  have hheld : Held s.dev c.task.tgid a := ⟨m, Keyed.lookup_mem hm, Keyed.lookup_key hm, hmem⟩
  obtain ⟨-, hcmg, -⟩ := ((hi.sane _ a hheld).assign_mask c.cpu).mp hbit
  exact Fin.ext (hcmg.trans hc)

theorem alloc_local {arg : AllocArg} (he : e.request = .ioctl (.BB_ALLOC arg))
    (hs : Settled l s) : ∃ S, cells.Local (Settled l) S (handle e) ∧ S ⊆ e.cells s := by
  -- the mask is judged by the table, which is always the same
  have hcheck : ∀ t, Settled l t → ∀ m, check_cpumask e.call.online t.dev m =
      check_cpumask e.call.online s.dev m := fun t ht m => by
    rw [check_cpumask_same ht.table, check_cpumask_same hs.table]
  by_cases hacc : ∃ ioc mask, arg.read = some ioc ∧ arg.pemask = some mask ∧
      0 ≤ check_cpumask e.call.online s.dev mask
  · obtain ⟨ioc, mask, hread, hmask, hpos⟩ := hacc
    obtain ⟨i, hi, -⟩ := accepted_of_check hs.inv.table hpos
    have htarget : Targets e s i := by
      unfold Targets
      rw [he]
      exact ⟨ioc, mask, hread, hmask, by rw [clean_cpumask_eq]; exact hi⟩
    refine ⟨footprint hw e.call.task.tgid i, ?_, fun x hx => ⟨i, htarget, hx⟩⟩
    have hlocal := local_of_twins (l := l) (i := i) (f := oss_a64fx_hwb_allocate e.call i.val mask)
      (fun s t hs h => allocate_twin h hs.locks rfl mask) (alloc_reply arg i.val)
    intro u v hu hv hagree
    have hev : ∀ t, Settled l t → handle e t =
        (oss_a64fx_hwb_allocate e.call i.val mask t).map
          fun x => (alloc_reply arg i.val x.1, x.2) := by
      intro t ht
      have hci := (hcheck t ht mask).trans hi
      rw [alloc_event_eq he hread hmask (by rw [hci]; omega), hci]
    rw [hev u hu, hev v hv]
    exact hlocal u v hu hv hagree
  · refine ⟨∅, .const (r := { err := -EINVAL }) fun t ht => ?_, Set.empty_subset _⟩
    refine alloc_event_refused he fun ioc mask hread hmask => ?_
    rw [hcheck t ht mask]
    exact not_le.mp fun hpos => hacc ⟨ioc, mask, hread, hmask, hpos⟩

theorem free_local {arg : UserArg fujitsu_hwb_ioc_bb_ctl}
    (he : e.request = .ioctl (.BB_FREE arg)) (hrange : e.CmgInRange) :
    ∃ S, cells.Local (Settled l) S (handle e) ∧ S ⊆ e.cells s := by
  cases hread : arg.read with
  | none =>
      refine ⟨∅, .const (r := { err := -1 }) fun t _ => ?_, Set.empty_subset _⟩
      exact handle_unread (Or.inr (Or.inr ⟨arg, he, hread⟩))
  | some ioc =>
      have hlt := hrange arg ioc he hread
      have htarget : Targets e s ⟨ioc.cmg.toNat, hlt⟩ := by
        unfold Targets
        rw [he]
        exact ⟨ioc, hread, rfl⟩
      refine ⟨footprint hw e.call.task.tgid ⟨ioc.cmg.toNat, hlt⟩, ?_,
        fun x hx => ⟨_, htarget, hx⟩⟩
      have hlocal := local_of_twins (l := l) (i := ⟨ioc.cmg.toNat, hlt⟩)
        (f := oss_a64fx_hwb_free e.call ioc.cmg.toNat ioc.bb.toNat)
        (fun s t hs h => free_twin h hs.locks rfl ioc.bb.toNat
          fun m a hm ha hbit => cmg_of_assigned hs.inv hm ha hbit) (free_reply arg ioc)
      have hev : handle e = fun t => (oss_a64fx_hwb_free e.call ioc.cmg.toNat ioc.bb.toNat t).map
          fun x => (free_reply arg ioc x.1, x.2) := funext fun t => free_event_map he hread
      rw [hev]
      exact hlocal

theorem assign_local {arg : UserArg fujitsu_hwb_ioc_bw_ctl}
    (he : e.request = .ioctl (.BW_ASSIGN arg)) :
    ∃ S, cells.Local (Settled l) S (handle e) ∧ S ⊆ e.cells s := by
  cases hread : arg.read with
  | none =>
      refine ⟨∅, .const (r := { err := -1 }) fun t _ => ?_, Set.empty_subset _⟩
      exact handle_unread (Or.inl ⟨arg, he, hread⟩)
  | some ioc =>
      have htarget : Targets e s (hw.cmg e.call.cpu) := by
        unfold Targets
        rw [he]
      refine ⟨footprint hw e.call.task.tgid (hw.cmg e.call.cpu), ?_, fun x hx => ⟨_, htarget, hx⟩⟩
      have hlocal := local_of_twins (l := l) (i := hw.cmg e.call.cpu)
        (f := oss_a64fx_hwb_assign_blade e.call ioc.bb.toNat ioc.window.toInt)
        (fun s t hs h => assign_blade_twin h hs.locks rfl rfl _ _) (assign_reply arg ioc)
      have hev : handle e = fun t =>
          (oss_a64fx_hwb_assign_blade e.call ioc.bb.toNat ioc.window.toInt t).map
            fun x => (assign_reply arg ioc x.1, x.2) := funext fun t => assign_event_eq he hread
      rw [hev]
      exact hlocal

theorem unassign_local {arg : UserArg fujitsu_hwb_ioc_bw_ctl}
    (he : e.request = .ioctl (.BW_UNASSIGN arg)) :
    ∃ S, cells.Local (Settled l) S (handle e) ∧ S ⊆ e.cells s := by
  cases hread : arg.read with
  | none =>
      refine ⟨∅, .const (r := { err := -1 }) fun t _ => ?_, Set.empty_subset _⟩
      exact handle_unread (Or.inr (Or.inl ⟨arg, he, hread⟩))
  | some ioc =>
      have htarget : Targets e s (hw.cmg e.call.cpu) := by
        unfold Targets
        rw [he]
      refine ⟨footprint hw e.call.task.tgid (hw.cmg e.call.cpu), ?_, fun x hx => ⟨_, htarget, hx⟩⟩
      have hlocal := local_of_twins (l := l) (i := hw.cmg e.call.cpu)
        (f := oss_a64fx_hwb_unassign_blade e.call ioc.bb.toNat)
        (fun s t hs h => unassign_blade_twin h hs.locks rfl rfl _) (unassign_reply arg ioc)
      have hev : handle e = fun t => (oss_a64fx_hwb_unassign_blade e.call ioc.bb.toNat t).map
          fun x => (unassign_reply arg ioc x.1, x.2) := funext fun t => unassign_event_eq he hread
      rw [hev]
      exact hlocal

/-- **A request is local to the cells of its group and its CMG.** -/
theorem event_local (he : e.OnBlades) (hrange : e.CmgInRange) (hs : Settled l s) :
    ∃ S, cells.Local (Settled l) S (handle e) ∧ S ⊆ e.cells s := by
  rcases he with ⟨arg, he⟩ | ⟨arg, he⟩ | ⟨arg, he⟩ | ⟨arg, he⟩
  · exact alloc_local he hs
  · exact free_local he hrange
  · exact assign_local he
  · exact unassign_local he

/-! ## Either order -/

/-- The same state but for the order of the mappings. -/
structure SameUpToOrder (u v : Kernel) : Prop where
  task_list : u.dev.task_list.Perm v.dev.task_list
  dev : { u.dev with task_list := v.dev.task_list } = v.dev
  regs : u.regs = v.regs
  locks : u.locks = v.locks
  preempt_count : u.preempt_count = v.preempt_count

/-- Made in either order, the two requests get the same two replies and leave states
related by `E`, or the first of them to fault faults in the same way. -/
def EitherOrder (E : Kernel → Kernel → Prop) (e₁ e₂ : Event hw) (s : Kernel) : Prop :=
  Twin (fun x y => x.1 = y.1.swap ∧ E x.2 y.2) (inTurn (handle e₁) (handle e₂) s)
    (inTurn (handle e₂) (handle e₁) s)

/-- A BW_ASSIGN names a window whose number is below the width of a word. -/
def Event.WindowInRange (e : Event hw) : Prop :=
  ∀ arg ioc, e.request = .ioctl (.BW_ASSIGN arg) → arg.read = some ioc → ioc.window.toInt < 64

/-- With the numbers in range there is one way left to fault. -/
theorem fault_of_event (hs : Settled l s) (hrange : e.CmgInRange) (hwin : e.WindowInRange)
    {f : Fault} (h : handle e s = .error f) : f = .null_pemap := by
  by_cases hentry : NoEntry e s
  · rw [handle_noEntry hs.inv.table hs.locks hentry] at h
    cases h
    rfl
  · have houtside : ¬FreesOutside e s := by
      rintro ⟨arg, ioc, he, hread, hge, -⟩
      have hlt := hrange arg ioc he hread
      omega
    have hbeyond : ¬ReadsBeyond e s := by
      rintro ⟨arg, ioc, m, a, he, hread, -, -, -, hge⟩
      have hlt := hwin arg ioc he hread
      omega
    obtain ⟨r, hok⟩ := handle_ok hs.inv hs.locks houtside hentry fun hr => absurd hr hbeyond
    rw [hok] at h
    cases h

/-- A state is its cells, its counters and its locks, up to the order of the mappings. -/
theorem sameUpToOrder_of_cells (hu : Settled l u) (hv : Settled l v)
    (hcell : ∀ x, cells.cell x u = cells.cell x v)
    (hcount : ∀ k, cells.count k u = cells.count k v) : SameUpToOrder u v := by
  have hperm : u.dev.task_list.Perm v.dev.task_list :=
    Keyed.perm_of_lookup hu.inv.lists.groups hv.inv.lists.groups fun g => hcell (.mapping g)
  have hcmgs : u.dev.cmgs = v.dev.cmgs := funext fun i => hcell (.cmg i)
  have hbb : u.regs.init_sync_bb = v.regs.init_sync_bb := funext fun i => hcell (.init_sync_bb i)
  have hwr : u.regs.assign_sync_wr = v.regs.assign_sync_wr :=
    funext fun k => hcell (.assign_sync_wr k)
  have hrest : u.rest = v.rest := hcell .rest
  have hnum : u.dev.num_tasks = v.dev.num_tasks := hcount .num_tasks
  obtain ⟨h1, h2, h3, h4, h5, h6, h7⟩ := Rest.mk.inj hrest
  refine ⟨hperm, ?_, ?_, hu.locks.trans hv.locks.symm, hcount .preempt_count⟩
  · show (⟨u.dev.num_cmgs, u.dev.num_bb_per_cmg, u.dev.num_bw_per_cmg, u.dev.max_pe_per_cmg,
      u.dev.cmgs, u.dev.active_count, u.dev.num_tasks, v.dev.task_list⟩ : a64fx_hwb_device) = v.dev
    rw [h1, h2, h3, h4, h5, hcmgs, hnum]
  · show (⟨u.regs.hwb_ctrl, u.regs.init_sync_bb, u.regs.assign_sync_wr, u.regs.bst_sync_wr⟩ :
      hwb_regs) = v.regs
    rw [h6, hbb, hwr, h7]

/-- **Different groups and different CMGs.** -/
theorem either_order_of_targets (hs : Settled l s) (he₁ : e₁.OnBlades) (he₂ : e₂.OnBlades)
    (hr₁ : e₁.CmgInRange) (hr₂ : e₂.CmgInRange) (hw₁ : e₁.WindowInRange)
    (hw₂ : e₂.WindowInRange) (hg : e₁.call.task.tgid ≠ e₂.call.task.tgid)
    (htargets : ∀ i, Targets e₁ s i → ¬Targets e₂ s i) :
    EitherOrder SameUpToOrder e₁ e₂ s := by
  obtain ⟨S, hlocal₁, hS⟩ := event_local he₁ hr₁ hs
  obtain ⟨T, hlocal₂, hT⟩ := event_local he₂ hr₂ hs
  have hdisj : Disjoint S T := by
    rw [Set.disjoint_left]
    intro x hx hx'
    obtain ⟨i, hi, hcell⟩ := hS hx
    obtain ⟨j, hj, hcell'⟩ := hT hx'
    have hij : i ≠ j := fun h => htargets i hi (h ▸ hj)
    exact disjoint_footprint hg hij hcell hcell'
  unfold EitherOrder
  cases hlocal₁.commute hlocal₂ hdisj (fun _ _ _ h hok => h.step hr₁ hok)
    (fun _ _ _ h hok => h.step hr₂ hok) hs with
  | ok r r' u v hfg hgf hu hv hcell hcount =>
      rw [hfg, hgf]
      exact .ok ⟨rfl, sameUpToOrder_of_cells hu hv hcell hcount⟩
  | error f f' hfg hgf hf hf' =>
      have hnull : ∀ x, handle e₁ s = .error x ∨ handle e₂ s = .error x → x = .null_pemap := by
        rintro x (h | h)
        · exact fault_of_event hs hr₁ hw₁ h
        · exact fault_of_event hs hr₂ hw₂ h
      rw [hfg, hgf, hnull f hf, hnull f' hf']
      exact .error _

theorem Event.OnWindows.cmgInRange (h : e.OnWindows) : e.CmgInRange := by
  intro arg ioc he
  rcases h with ⟨arg', he'⟩ | ⟨arg', he'⟩
  · rw [he'] at he
    cases he
  · rw [he'] at he
    cases he

/-- **Different CPUs.** -/
theorem either_order_of_cpus (hs : Settled l s) (he₁ : e₁.OnWindows) (he₂ : e₂.OnWindows)
    (hw₁ : e₁.WindowInRange) (hw₂ : e₂.WindowInRange) (hcpu : e₁.call.cpu ≠ e₂.call.cpu) :
    EitherOrder Eq e₁ e₂ s := by
  obtain ⟨b₁, f₁, h₁⟩ := event_decision l he₁
  obtain ⟨b₂, f₂, h₂⟩ := event_decision l he₂
  have hf₁ := h₁ s hs.inv hs.locks
  have hf₂ := h₂ s hs.inv hs.locks
  unfold EitherOrder
  cases hd₁ : f₁ (view e₁.call b₁ s) with
  | error f =>
      rw [hd₁] at hf₁
      have hnull := fault_of_event hs he₁.cmgInRange hw₁ hf₁
      rw [inTurn_error_left hf₁]
      cases hd₂ : f₂ (view e₂.call b₂ s) with
      | error f' =>
          rw [hd₂] at hf₂
          rw [inTurn_error_left hf₂, hnull, fault_of_event hs he₂.cmgInRange hw₂ hf₂]
          exact .error _
      | ok y =>
          rw [hd₂] at hf₂
          have hs₂ : Settled l (performed e₂.call s y.2) := hs.step he₂.cmgInRange hf₂
          have hg₁ := h₁ _ hs₂.inv hs₂.locks
          rw [view_performed hs.inv.table hcpu b₁ y.2 hs₂.inv.table, hd₁] at hg₁
          rw [inTurn_error_right hf₂ hg₁]
          exact .error _
  | ok x =>
      rw [hd₁] at hf₁
      have hs₁ : Settled l (performed e₁.call s x.2) := hs.step he₁.cmgInRange hf₁
      have hg₂ := h₂ _ hs₁.inv hs₁.locks
      rw [view_performed hs.inv.table hcpu.symm b₂ x.2 hs₁.inv.table] at hg₂
      cases hd₂ : f₂ (view e₂.call b₂ s) with
      | error f' =>
          rw [hd₂] at hf₂ hg₂
          rw [inTurn_error_left hf₂, inTurn_error_right hf₁ hg₂]
          exact .error _
      | ok y =>
          rw [hd₂] at hf₂ hg₂
          have hs₂ : Settled l (performed e₂.call s y.2) := hs.step he₂.cmgInRange hf₂
          have hg₁ := h₁ _ hs₂.inv hs₂.locks
          rw [view_performed hs.inv.table hcpu b₁ y.2 hs₂.inv.table, hd₁] at hg₁
          rw [inTurn_ok hf₁ hg₂, inTurn_ok hf₂ hg₁]
          exact .ok ⟨rfl, (performed_comm hcpu s x.2 y.2).symm⟩

/-- **Independent requests commute**, after any run: the BB and BW requests of two groups
that are about different CMGs, up to the order of the mappings; and the BW requests of
two CPUs. Neither depends on which `kmalloc` succeeds. -/
theorem independent_requests_commute (h : (driver l R).Reachable s) (hr₁ : e₁.CmgInRange)
    (hr₂ : e₂.CmgInRange) (hw₁ : e₁.WindowInRange) (hw₂ : e₂.WindowInRange) :
    (e₁.OnBlades → e₂.OnBlades → e₁.call.task.tgid ≠ e₂.call.task.tgid →
      (∀ i, Targets e₁ s i → ¬Targets e₂ s i) → EitherOrder SameUpToOrder e₁ e₂ s) ∧
    (e₁.OnWindows → e₂.OnWindows → e₁.call.cpu ≠ e₂.call.cpu → EitherOrder Eq e₁ e₂ s) := by
  have hs := settled_of_reachable h
  constructor
  · intro he₁ he₂ hg htargets
    exact either_order_of_targets hs he₁ he₂ hr₁ hr₂ hw₁ hw₂ hg htargets
  · intro he₁ he₂ hcpu
    exact either_order_of_cpus hs he₁ he₂ hw₁ hw₂ hcpu

/-- A BB_ALLOC on CMG 0 and the BB_FREE of another process's blade on CMG 1, which both
succeed; and two threads that assign a window for one blade. -/
theorem independent_requests_commute_quad :
    EitherOrder SameUpToOrder (Late.alloc Quad.first 0 0x3)
      ⟨Late.call Quad.other 2, .ioctl (.BB_FREE ⟨some ⟨1, 0⟩, true⟩)⟩
      (after Late.load_all [Late.alloc Quad.other 2 0xC]) ∧
    ((handle (Late.alloc Quad.first 0 0x3) (after Late.load_all [Late.alloc Quad.other 2 0xC])).map
      fun x => x.1.err) = .ok 0 ∧
    ((handle ⟨Late.call Quad.other 2, .ioctl (.BB_FREE ⟨some ⟨1, 0⟩, true⟩)⟩
      (after Late.load_all [Late.alloc Quad.other 2 0xC])).map fun x => x.1.err) = .ok 0 ∧
    EitherOrder Eq (Quad.assign Quad.first 0 0 (-1)) (Quad.assign Quad.second 1 0 (-1))
      (after Quad.load [Quad.alloc Quad.first 0 0x3]) := by
  have hreach : (driver Late.load_all fun _ => True).Reachable
      (after Late.load_all [Late.alloc Quad.other 2 0xC]) :=
    reachable_after trivial (by decide +kernel) (by decide)
  have hreach' : (driver Quad.load fun _ => True).Reachable
      (after Quad.load [Quad.alloc Quad.first 0 0x3]) :=
    reachable_after trivial (by decide +kernel) (by decide)
  have hassign : ∀ task cpu, (Quad.assign task cpu 0 (-1)).WindowInRange := by
    intro task cpu arg ioc he hread
    cases he
    cases hread
    decide
  have halloc : (Late.alloc Quad.first 0 0x3).WindowInRange := by
    intro _ _ he
    cases he
  have hfree : Event.WindowInRange (⟨Late.call Quad.other 2, .ioctl (.BB_FREE
      ⟨some ⟨1, 0⟩, true⟩)⟩ : Event Late.machine) := by
    intro _ _ he
    cases he
  refine ⟨?_, by decide +kernel, by decide +kernel, ?_⟩
  · refine (independent_requests_commute hreach (Event.cmgInRange_of_test (by decide))
      (Event.cmgInRange_of_test (by decide)) halloc hfree).1 (Or.inl ⟨_, rfl⟩)
      (Or.inr (Or.inl ⟨_, rfl⟩)) (by decide) ?_
    rintro i ⟨ioc, mask, hread, hmask, hcheck⟩ ⟨ioc', hread', hcmg⟩
    cases hmask
    cases hread'
    have hval : check_cpumask 0xF (after Late.load_all [Late.alloc Quad.other 2 0xC]).dev
        (clean_cpumask 0x3) = 0 := by decide +kernel
    have hi : (i.val : ℤ) = 0 := hcheck.symm.trans hval
    have hone : (1 : BitVec 8).toNat = i.val := hcmg
    have hone' : (1 : BitVec 8).toNat = 1 := by decide
    omega
  · exact (independent_requests_commute hreach' (Event.cmgInRange_of_test (by decide))
      (Event.cmgInRange_of_test (by decide)) (hassign _ _) (hassign _ _)).2
      (Or.inl ⟨_, rfl⟩) (Or.inl ⟨_, rfl⟩) (by decide)

end A64fxHwb
