/-
Calls of several threads at once.

Only what a call does under `dev_lock` changes the driver's state. What it does before is
to look at its argument and, in a BB_ALLOC, to check the mask against the table, which no
call ever writes; what it does afterwards is to copy its reply. So whatever the order in
which the threads take these steps, the calls take effect one after the other: at the
`spin_unlock`, or at once if they never get to the lock.
-/
import A64fxHwb.Commute
import A64fxHwb.Guarded

set_option autoImplicit false

namespace A64fxHwb

open BitWord Relation Runs Locking

variable {hw : Machine} {l : Load hw} {R : hwb_regs → Prop} {e : Event hw} {s s' : Kernel}

/-! ## A call and its lock -/

/-- What a call has to do under `dev_lock`. -/
inductive Job
  | open
  | close
  | alloc (arg : AllocArg) (cmg : ℤ) (mask : cpumask_t)
  | free (arg : UserArg fujitsu_hwb_ioc_bb_ctl) (ioc : fujitsu_hwb_ioc_bb_ctl)
  | assign (arg : UserArg fujitsu_hwb_ioc_bw_ctl) (ioc : fujitsu_hwb_ioc_bw_ctl)
  | unassign (arg : UserArg fujitsu_hwb_ioc_bw_ctl) (ioc : fujitsu_hwb_ioc_bw_ctl)
  | reset

/-- The reply of a GET_PE_INFO, which takes no lock. -/
def look_peinfo (c : Call hw) (arg : UserArg fujitsu_hwb_ioc_pe_info) : Reply :=
  match arg.read with
  | none => { err := -1 }
  | some _ =>
    let (cmg, ppe) := hw.read_peinfo c.cpu
    if arg.writable then { err := 0, pe_info := some { cmg := cmg.val, ppe := ppe } }
    else { err := -1 }

/-- A BB_ALLOC up to `spin_lock`. -/
def look_alloc (c : Call hw) (arg : AllocArg) (s : Kernel) : Reply ⊕ Call hw × Job :=
  match arg.read, arg.pemask with
  | none, _ => .inl { err := -EINVAL }
  | some _, none => .inl { err := -EINVAL }
  | some _, some mask =>
    let cmg := check_cpumask c.online s.dev (clean_cpumask mask)
    -- the second test is made by `oss_a64fx_hwb_allocate` itself
    if cmg < 0 ∨ cmg > MAX_NUM_CMG then .inl { err := -EINVAL }
    else .inr (c, .alloc arg cmg (clean_cpumask mask))

/-- A BW_ASSIGN or BW_UNASSIGN up to `spin_lock`. -/
def look_window (c : Call hw) (arg : UserArg fujitsu_hwb_ioc_bw_ctl)
    (job : fujitsu_hwb_ioc_bw_ctl → Job) : Reply ⊕ Call hw × Job :=
  match arg.read with
  | none => .inl { err := -1 }
  | some ioc =>
    if cpumask_weight c.cpus_mask > 1 then .inl { err := -EINVAL } else .inr (c, job ioc)

/-- A call up to `spin_lock(&dev->dev_lock)`. -/
def look (e : Event hw) (s : Kernel) : Reply ⊕ Call hw × Job :=
  match e.request with
  | .open => .inr (e.call, .open)
  | .close => .inr (e.call, .close)
  | .ioctl (.GET_PE_INFO arg) => .inl (look_peinfo e.call arg)
  | .ioctl (.BB_ALLOC arg) => look_alloc e.call arg s
  | .ioctl (.BB_FREE arg) =>
    match arg.read with
    | none => .inl { err := -1 }
    | some ioc => .inr (e.call, .free arg ioc)
  | .ioctl (.BW_ASSIGN arg) => look_window e.call arg (.assign arg)
  | .ioctl (.BW_UNASSIGN arg) => look_window e.call arg (.unassign arg)
  | .ioctl .RESET => .inr (e.call, .reset)
  | .ioctl .other => .inl { err := -ENOTTY }

/-- The close under the lock. -/
def close_work (c : Call hw) (s : Kernel) : Except Fault Kernel :=
  if s.dev.active_count > 0 then
    let s := { s with dev := { s.dev with active_count := s.dev.active_count - 1 } }
    match get_taskmap s.dev c.task with
    | some taskmap => if c.task.pid = taskmap.task.pid then unregister_task c taskmap s else pure s
    | none => pure s
  else pure s

/-- The reset under the lock, with `asm_reset_func` run everywhere before the unlock. -/
def reset_work (c : Call hw) (s : Kernel) : Kernel :=
  let s := on_each_cpu c (asm_reset_func hw) 0 s
  let dev := reset_task_list s.dev
  { s with dev := { dev with
      num_tasks := 0
      active_count := 0
      cmgs := fun i =>
        { dev.cmgs i with
          bb_active := 0
          pe_map := fun j => { (dev.cmgs i).pe_map j with bw_map := 0 } } } }

/-- A call from `spin_lock(&dev->dev_lock)` to `spin_unlock`, and what it returns then. -/
def work (k : Call hw × Job) (s : Kernel) : Except Fault (Reply × Kernel) :=
  match k.2 with
  | .open =>
    .ok ({ err := 0 }, { s with dev := { s.dev with active_count := s.dev.active_count + 1 } })
  | .close => do
    let s ← close_work k.1 s
    return ({ err := 0 }, s)
  | .alloc arg cmg mask => do
    let (taskmap, s) := oss_a64fx_hwb_allocate_taskmap k.1 s
    let (ret, s) ←
      match taskmap with
      | none => pure ((-1, none), s)
      | some taskmap => oss_a64fx_hwb_allocate_blade k.1 cmg mask taskmap s
    return (alloc_reply arg cmg ret, s)
  | .free arg ioc => do
    let (err, s) ←
      match get_taskmap s.dev k.1.task with
      | none => pure (-EINVAL, s)
      | some taskmap => oss_a64fx_hwb_free_blade k.1 ioc.cmg.toNat ioc.bb.toNat taskmap s
    return (free_reply arg ioc err, s)
  | .assign arg ioc => do
    let (ret, s) ← oss_a64fx_hwb_assign_find k.1 ioc.bb.toNat ioc.window.toInt (get_cpu s)
    return (assign_reply arg ioc ret, put_cpu s)
  | .unassign arg ioc => do
    let (err, s) ← oss_a64fx_hwb_unassign_find k.1 ioc.bb.toNat (get_cpu s)
    return (unassign_reply arg ioc err, put_cpu s)
  | .reset => .ok ({ err := -ENOTTY }, reset_work k.1 s)

/-- The driver's calls in steps. Other threads may find the state of a call anywhere
between its small steps, under the lock. -/
def calls (l : Load hw) : Guarded Kernel (Event hw) (Call hw × Job) Reply Fault where
  look := look
  lock := spin_lock_dev
  writes k s s' := ReflTransGen (Micro l k.1 fun _ => True) s s' ∧ s'.locks.dev_lock = true
  work := work
  unlock := spin_unlock_dev

/-! ## The steps are the call -/

/-- A job with its lock around it. -/
def locked (k : Call hw × Job) (s : Kernel) : Except Fault (Reply × Kernel) := do
  let s ← spin_lock_dev s
  let (reply, s) ← work k s
  let s ← spin_unlock_dev s
  return (reply, s)

theorem peinfo_looked (c : Call hw) (arg : UserArg fujitsu_hwb_ioc_pe_info) (s : Kernel) :
    oss_a64fx_hwb_get_peinfo_ioctl c arg s = .ok (look_peinfo c arg, s) := by
  unfold oss_a64fx_hwb_get_peinfo_ioctl look_peinfo
  cases arg.read with
  | none => rfl
  | some ioc =>
      simp only
      split_ifs
      · rfl
      · rfl

theorem open_locked (c : Call hw) (s : Kernel) : oss_a64fx_hwb_open s = locked (c, .open) s := rfl

theorem close_locked (c : Call hw) (s : Kernel) :
    oss_a64fx_hwb_close c s = locked (c, .close) s := by
  unfold oss_a64fx_hwb_close locked work close_work
  cases spin_lock_dev s with
  | error f => rfl
  | ok s =>
      simp only [Loops.ok_bind]
      split_ifs with hcount
      · generalize get_taskmap _ c.task = taskmap
        cases taskmap with
        | none => rfl
        | some taskmap =>
            simp only
            split_ifs
            · simp only [bind_assoc, pure_bind]
            · rfl
      · rfl

/-- The unlock between what a handler computes and what it replies: `g` makes the reply, `h`
is what is done last under the lock. -/
theorem map_unlock {α : Type} (x : Except Fault (α × Kernel)) (g : α → Reply)
    (h : Kernel → Kernel) :
    ((x >>= fun y => spin_unlock_dev (h y.2) >>= fun s => .ok (y.1, s)).map
        fun y => (g y.1, y.2)) =
      ((x >>= fun y => .ok (g y.1, h y.2)) >>= fun y =>
        spin_unlock_dev y.2 >>= fun s => .ok (y.1, s)) := by
  cases x with
  | error f => rfl
  | ok y =>
      simp only [Loops.ok_bind]
      cases spin_unlock_dev (h y.2) with
      | error f => rfl
      | ok s => rfl

theorem alloc_locked (c : Call hw) (arg : AllocArg) {cmg : ℤ}
    (hcmg : ¬(cmg < 0 ∨ cmg > MAX_NUM_CMG)) (mask : cpumask_t) (s : Kernel) :
    ((oss_a64fx_hwb_allocate c cmg mask s).map fun x => (alloc_reply arg cmg x.1, x.2)) =
      locked (c, .alloc arg cmg mask) s := by
  unfold oss_a64fx_hwb_allocate locked work
  rw [if_neg hcmg]
  cases spin_lock_dev s with
  | error f => rfl
  | ok s =>
      simp only [Loops.ok_bind]
      generalize oss_a64fx_hwb_allocate_taskmap c s = x
      obtain ⟨taskmap, s⟩ := x
      cases taskmap with
      | none => exact map_unlock (.ok ((-1, none), s)) (alloc_reply arg cmg) id
      | some taskmap =>
          exact map_unlock (oss_a64fx_hwb_allocate_blade c cmg mask taskmap s)
            (alloc_reply arg cmg) id

theorem free_locked (c : Call hw) (arg : UserArg fujitsu_hwb_ioc_bb_ctl)
    (ioc : fujitsu_hwb_ioc_bb_ctl) (s : Kernel) :
    ((oss_a64fx_hwb_free c ioc.cmg.toNat ioc.bb.toNat s).map
      fun x => (free_reply arg ioc x.1, x.2)) = locked (c, .free arg ioc) s := by
  unfold oss_a64fx_hwb_free locked work
  cases spin_lock_dev s with
  | error f => rfl
  | ok s =>
      simp only [Loops.ok_bind]
      cases get_taskmap s.dev c.task with
      | none => exact map_unlock (.ok (-EINVAL, s)) (free_reply arg ioc) id
      | some taskmap =>
          exact map_unlock (oss_a64fx_hwb_free_blade c ioc.cmg.toNat ioc.bb.toNat taskmap s)
            (free_reply arg ioc) id

theorem assign_locked (c : Call hw) (arg : UserArg fujitsu_hwb_ioc_bw_ctl)
    (ioc : fujitsu_hwb_ioc_bw_ctl) (hone : ¬cpumask_weight c.cpus_mask > 1) (s : Kernel) :
    ((oss_a64fx_hwb_assign_blade c ioc.bb.toNat ioc.window.toInt s).map
      fun x => (assign_reply arg ioc x.1, x.2)) = locked (c, .assign arg ioc) s := by
  unfold oss_a64fx_hwb_assign_blade locked work
  rw [if_neg hone]
  cases spin_lock_dev s with
  | error f => rfl
  | ok s =>
      exact map_unlock
        (oss_a64fx_hwb_assign_find c ioc.bb.toNat ioc.window.toInt (get_cpu s))
        (assign_reply arg ioc) put_cpu

theorem unassign_locked (c : Call hw) (arg : UserArg fujitsu_hwb_ioc_bw_ctl)
    (ioc : fujitsu_hwb_ioc_bw_ctl) (hone : ¬cpumask_weight c.cpus_mask > 1) (s : Kernel) :
    ((oss_a64fx_hwb_unassign_blade c ioc.bb.toNat s).map
      fun x => (unassign_reply arg ioc x.1, x.2)) = locked (c, .unassign arg ioc) s := by
  unfold oss_a64fx_hwb_unassign_blade locked work
  rw [if_neg hone]
  cases spin_lock_dev s with
  | error f => rfl
  | ok s =>
      exact map_unlock (oss_a64fx_hwb_unassign_find c ioc.bb.toNat (get_cpu s))
        (unassign_reply arg ioc) put_cpu

theorem reset_locked (c : Call hw) (s : Kernel) :
    oss_a64fx_hwb_ioctl c 0 .RESET s = locked (c, .reset) s := by
  unfold oss_a64fx_hwb_ioctl oss_a64fx_hwb_reset_ioctl locked work
  cases spin_lock_dev s with
  | error f => rfl
  | ok s =>
      simp only [Loops.ok_bind]
      change (spin_unlock_dev (reset_work c s) >>= _) >>= _ = spin_unlock_dev (reset_work c s) >>= _
      cases spin_unlock_dev (reset_work c s) with
      | error f => rfl
      | ok s => rfl

/-- Without the lock, a mask for no CMG changes nothing. -/
theorem alloc_refused_eq {arg : AllocArg} {mask : BitVec 64} {ioc : fujitsu_hwb_ioc_bb_ctl}
    (he : e.request = .ioctl (.BB_ALLOC arg)) (hread : arg.read = some ioc)
    (hmask : arg.pemask = some mask)
    (hcmg : check_cpumask e.call.online s.dev mask < 0 ∨
      check_cpumask e.call.online s.dev mask > MAX_NUM_CMG) :
    handle e s = .ok ({ err := -EINVAL }, s) := by
  by_cases hneg : check_cpumask e.call.online s.dev mask < 0
  · refine alloc_event_refused he fun ioc' mask' _ hmask' => ?_
    cases hmask.symm.trans hmask'
    exact hneg
  · rw [alloc_event_eq he hread hmask (not_lt.mp hneg)]
    unfold oss_a64fx_hwb_allocate
    rw [if_pos hcmg]
    rfl

theorem whole_of_job (l : Load hw) {k : Call hw × Job} (h : look e s = .inr k) :
    (calls l).whole e s = locked k s := by
  unfold Guarded.whole
  rw [show (calls l).look e s = .inr k from h]
  rfl

theorem whole_of_reply (l : Load hw) {r : Reply} (h : look e s = .inl r) :
    (calls l).whole e s = .ok (r, s) :=
  whole_eq_of_answer h

theorem whole_alloc (l : Load hw) {arg : AllocArg} (he : e.request = .ioctl (.BB_ALLOC arg)) :
    (calls l).whole e s = handle e s := by
  have hlook : look e s = look_alloc e.call arg s := by
    unfold look
    rw [he]
  unfold look_alloc at hlook
  cases hread : arg.read with
  | none =>
      simp only [hread] at hlook
      rw [whole_of_reply l hlook, alloc_event_refused he]
      intro ioc _ hread'
      cases hread.symm.trans hread'
  | some ioc =>
      cases hmask : arg.pemask with
      | none =>
          simp only [hread, hmask] at hlook
          rw [whole_of_reply l hlook, alloc_event_refused he]
          intro _ mask _ hmask'
          cases hmask.symm.trans hmask'
      | some mask =>
          simp only [hread, hmask, clean_cpumask_eq] at hlook
          by_cases hcmg : check_cpumask e.call.online s.dev mask < 0 ∨
              check_cpumask e.call.online s.dev mask > MAX_NUM_CMG
          · rw [if_pos hcmg] at hlook
            rw [whole_of_reply l hlook, alloc_refused_eq he hread hmask hcmg]
          · rw [if_neg hcmg] at hlook
            have hpos := not_lt.mp (not_or.mp hcmg).1
            rw [whole_of_job l hlook, alloc_event_eq he hread hmask hpos]
            exact (alloc_locked e.call arg hcmg mask s).symm

/-- A window request is refused before the lock, or makes its job under it. -/
theorem whole_window (l : Load hw) {arg : UserArg fujitsu_hwb_ioc_bw_ctl}
    {job : fujitsu_hwb_ioc_bw_ctl → Job}
    (hlook : look e s = look_window e.call arg job)
    (hunread : arg.read = none → handle e s = .ok ({ err := -1 }, s))
    (hmany : ∀ ioc, arg.read = some ioc → cpumask_weight e.call.cpus_mask > 1 →
      handle e s = .ok ({ err := -EINVAL }, s))
    (hone : ∀ ioc, arg.read = some ioc → ¬cpumask_weight e.call.cpus_mask > 1 →
      handle e s = locked (e.call, job ioc) s) : (calls l).whole e s = handle e s := by
  unfold look_window at hlook
  cases hread : arg.read with
  | none =>
      rw [hread] at hlook
      rw [hunread hread, whole_of_reply l hlook]
  | some ioc =>
      simp only [hread] at hlook
      by_cases hweight : cpumask_weight e.call.cpus_mask > 1
      · rw [if_pos hweight] at hlook
        rw [hmany ioc hread hweight, whole_of_reply l hlook]
      · rw [if_neg hweight] at hlook
        rw [hone ioc hread hweight, whole_of_job l hlook]

/-- **The steps of a call are the call.** -/
theorem whole_calls (l : Load hw) (e : Event hw) (s : Kernel) :
    (calls l).whole e s = handle e s := by
  obtain ⟨c, request⟩ := e
  cases request with
  | «open» => exact (whole_of_job l rfl).trans (open_locked c s).symm
  | close => exact (whole_of_job l rfl).trans (close_locked c s).symm
  | ioctl ioc =>
      cases ioc with
      | GET_PE_INFO arg =>
          rw [whole_of_reply l (r := look_peinfo c arg) rfl]
          exact (peinfo_looked c arg s).symm
      | BB_ALLOC arg => exact whole_alloc l rfl
      | BB_FREE arg =>
          cases hread : arg.read with
          | none =>
              rw [handle_unread (Or.inr (Or.inr ⟨arg, rfl, hread⟩))]
              exact whole_of_reply l (by simp only [look, hread])
          | some ioc =>
              rw [free_event_map rfl hread, free_locked c arg ioc s]
              exact whole_of_job l (by simp only [look, hread])
      | BW_ASSIGN arg =>
          refine whole_window l rfl (fun hread => ?_) (fun ioc hread hmany => ?_)
            fun ioc hread hone => ?_
          · exact handle_unread (Or.inl ⟨arg, rfl, hread⟩)
          · rw [assign_event_eq rfl hread, oss_a64fx_hwb_assign_blade, if_pos hmany]
            rfl
          · exact (assign_event_eq rfl hread).trans (assign_locked c arg ioc hone s)
      | BW_UNASSIGN arg =>
          refine whole_window l rfl (fun hread => ?_) (fun ioc hread hmany => ?_)
            fun ioc hread hone => ?_
          · exact handle_unread (Or.inr (Or.inl ⟨arg, rfl, hread⟩))
          · rw [unassign_event_eq rfl hread, oss_a64fx_hwb_unassign_blade, if_pos hmany]
            rfl
          · exact (unassign_event_eq rfl hread).trans (unassign_locked c arg ioc hone s)
      | RESET => exact (whole_of_job l rfl).trans (reset_locked c s).symm
      | other => exact whole_of_reply l rfl

/-! ## The lock does what it has to -/

theorem dev_lock_of_lock (h : spin_lock_dev s = .ok s') :
    s.locks.dev_lock = false ∧ s'.locks.dev_lock = true ∧ s'.dev = s.dev := by
  unfold spin_lock_dev at h
  split_ifs at h with hheld
  cases h
  exact ⟨Bool.eq_false_of_not_eq_true hheld, rfl, rfl⟩

theorem dev_lock_of_unlock (h : spin_unlock_dev s = .ok s') :
    s.locks.dev_lock = true ∧ s'.dev = s.dev := by
  unfold spin_unlock_dev at h
  split_ifs at h with hheld
  cases h
  exact ⟨hheld, rfl⟩

theorem lock_refused (h : s.locks.dev_lock = true) : spin_lock_dev s ≠ .ok s' := by
  intro hlock
  have hfree := (dev_lock_of_lock hlock).1
  rw [h] at hfree
  cases hfree

/-- No call ends with a lock it does not hold. -/
theorem handle_ne_unlock (hs : Settled l s) (hrange : e.CmgInRange) :
    handle e s ≠ .error .unlock_not_held := by
  intro herr
  by_cases hentry : NoEntry e s
  · rw [handle_noEntry hs.inv.table hs.locks hentry] at herr
    cases herr
  by_cases hbeyond : ReadsBeyond e s ∧ e.call.beyond = none
  · obtain ⟨nr, hnr⟩ := handle_readsBeyond hs.inv hs.locks hbeyond.1 hbeyond.2
    rw [hnr] at herr
    cases herr
  have houtside : ¬FreesOutside e s := by
    rintro ⟨arg, ioc, he, hread, hge, -⟩
    have hlt := hrange arg ioc he hread
    omega
  obtain ⟨r, hok⟩ := handle_ok hs.inv hs.locks houtside hentry
    fun hreads hnone => hbeyond ⟨hreads, hnone⟩
  rw [hok] at herr
  cases herr

/-- A look reads nothing but the table. -/
theorem look_same {d : a64fx_hwb_device} (h : SameTable d s.dev) (h' : SameTable d s'.dev)
    (e : Event hw) : look e s' = look e s := by
  have halloc : ∀ c : Call hw, ∀ arg, look_alloc c arg s' = look_alloc c arg s := by
    intro c arg
    unfold look_alloc
    simp only [check_cpumask_same h, check_cpumask_same h']
  unfold look
  simp only [halloc]

/-- What is done under the lock can be followed by the unlock, and leaves the table. -/
theorem unlock_of_work (hs : Settled l s) (hrange : e.CmgInRange) {k : Call hw × Job}
    {s₁ s₂ : Kernel} {reply : Reply} (hlook : look e s = .inr k) (hlock : spin_lock_dev s = .ok s₁)
    (hwork : work k s₁ = .ok (reply, s₂)) :
    SameTable (loaded_device l) s₂.dev ∧ ∃ s₃, spin_unlock_dev s₂ = .ok s₃ := by
  have hhandle : handle e s = (spin_unlock_dev s₂).map fun s => (reply, s) := by
    rw [← whole_calls l, whole_of_job l hlook, locked, hlock]
    simp only [Loops.ok_bind, hwork]
    rfl
  cases hunlock : spin_unlock_dev s₂ with
  | error f =>
      have hf : f = .unlock_not_held := by
        unfold spin_unlock_dev at hunlock
        split_ifs at hunlock
        cases hunlock
        rfl
      rw [hunlock, hf] at hhandle
      exact absurd hhandle (handle_ne_unlock hs hrange)
  | ok s₃ =>
      rw [hunlock] at hhandle
      have htable := (hs.step hrange hhandle).table
      rw [(dev_lock_of_unlock hunlock).2] at htable
      exact ⟨htable, s₃, rfl⟩

/-- The driver's lock keeps the calls apart. -/
theorem calls_sound (l : Load hw) : (calls l).Sound Event.CmgInRange (Settled l)
    fun s => SameTable (loaded_device l) s.dev where
  seen h := h.table
  next hs he h := by
    rw [whole_calls l] at h
    exact hs.step he h
  same hs hs' e := look_same hs hs' e
  lock hs := by
    have hlock := spin_lock_dev_free hs.locks
    exact ⟨_, hlock, hs.table, fun _ => lock_refused (dev_lock_of_lock hlock).2.1⟩
  write hs hlock h := by
    have htable := h.1.preserves (P := fun t => SameTable (loaded_device l) t.dev)
      (fun _ _ ht hm => ht.trans hm.sameTable) ((dev_lock_of_lock hlock).2.2 ▸ hs.table)
    exact ⟨htable, fun _ => lock_refused h.2⟩
  work hs he hlook hlock hwork := unlock_of_work hs he hlook hlock hwork
  held h _ := lock_refused (dev_lock_of_unlock h).1

/-! ## Any order of steps -/

section Interleaved

variable {τ : Type*} {w : World τ Kernel (Stage Kernel (Event hw) (Call hw × Job) Reply)}
variable {v : World τ Kernel (Turn (Event hw) Reply)} {Q : Kernel → Prop}

/-- `dev_lock` is held exactly when one thread is at work. -/
theorem dev_lock_iff (h : Follows (calls l) Event.CmgInRange (Settled l) Q w v) :
    w.shared.locks.dev_lock = true ↔ ∃! t, (w.stage t).Inside := by
  cases h.phase with
  | free hfree hshared =>
      rw [hshared, h.settled.locks]
      constructor
      · intro hlock
        cases hlock
      · rintro ⟨t, hin, -⟩
        exact absurd hin (hfree t)
  | inside hst honly _ _ _ _ htaken =>
      have hheld : w.shared.locks.dev_lock = true := by
        by_contra hfree
        exact htaken _ (spin_lock_dev_ok (Bool.eq_false_of_not_eq_true hfree))
      exact iff_of_true hheld ⟨_, Stage.inside_of_inside hst, honly⟩
  | done hst honly _ _ hunlock =>
      exact iff_of_true (dev_lock_of_unlock hunlock).1 ⟨_, Stage.inside_of_done hst, honly⟩

theorem shared_of_free (h : Follows (calls l) Event.CmgInRange (Settled l) Q w v)
    (hfree : w.shared.locks.dev_lock = false) : w.shared = v.shared := by
  have hnobody : ¬∃! t, (w.stage t).Inside := by
    rw [← dev_lock_iff h, hfree]
    exact Bool.false_ne_true
  cases h.phase with
  | free _ hshared => exact hshared
  | inside hst honly => exact absurd ⟨_, Stage.inside_of_inside hst, honly⟩ hnobody
  | done hst honly => exact absurd ⟨_, Stage.inside_of_done hst, honly⟩ hnobody

/-- **Calls of any number of threads, step by step in any order, are calls one after the
other**, each at its commit, and the state they leave is one the driver reaches. `dev_lock`
is held exactly while one thread is at work, and when it is free the state is theirs. A
thread in a call can go on, unless a thread has faulted that holds the lock. -/
theorem interleaved_calls_are_atomic [DecidableEq τ] {regs : hwb_regs} (hR : R regs)
    (hload : Loaded l regs s) {ls : List (Label τ (Event hw) Reply)}
    (h : Trace ((calls l).Step Event.CmgInRange) (World.start s .idle) ls w) :
    ∃ v, Trace (Atomic handle Event.CmgInRange) (World.start s .idle) ls v ∧
      (driver l R).Reachable v.shared ∧ (∀ t, v.stage t = (w.stage t).turn) ∧
      (w.shared.locks.dev_lock = true ↔ ∃! t, (w.stage t).Inside) ∧
      (w.shared.locks.dev_lock = false → w.shared = v.shared) ∧
      ∀ t, w.stage t ≠ .idle →
        (∃ t' st s' label, w.stage t' ≠ .idle ∧
          (calls l).Step Event.CmgInRange w label (w.move t' st s')) ∨
        ∃ t' e k s' f, w.stage t' = .inside e k s' ∧ handle e v.shared = .error f := by
  have hinit : (driver l R).Reachable s := .init ⟨regs, hR, hload⟩
  have hwhole : (calls l).whole = handle := funext fun e => funext fun s => whole_calls l e s
  obtain ⟨v, hrun, hfollows⟩ := follows_of_run (calls_sound l) (settled_of_reachable hinit) h
  have hprogress := fun t => hfollows.progress (t := t) (calls_sound l)
  rw [hwhole] at hrun hprogress
  refine ⟨v, hrun, ?_, hfollows.turns, dev_lock_iff hfollows, shared_of_free hfollows, hprogress⟩
  exact invariant_of_atomic hrun
    (fun e s r s' hs he hok => .step hs trivial ⟨he, r, hok⟩) hinit

/-- Two processes want a blade each. The second looks when the first has the lock and has
made its mapping but not yet its allocation, and then waits for the first to finish. -/
theorem interleaved_calls_are_atomic_quad : ∃ s w v, ∃ r₁ r₂ : Reply,
    Trace ((calls Quad.load).Step Event.CmgInRange) (World.start s .idle)
      [.call false (Quad.alloc Quad.first 0 0x3), .call true (Quad.alloc Quad.other 2 0xC),
        .quiet false, .quiet false, .quiet false, .quiet true, .quiet false,
        .commit false (Quad.alloc Quad.first 0 0x3) r₁, .quiet true, .quiet true,
        .commit true (Quad.alloc Quad.other 2 0xC) r₂] w ∧
    r₁.bb_ctl = some ⟨0, 0⟩ ∧ r₂.bb_ctl = some ⟨0, 1⟩ ∧
    (driver Quad.load fun _ => True).Reachable v ∧ w.shared = v := by
  obtain ⟨regs, -, hload⟩ : (driver Quad.load fun _ => True).init (after Quad.load []) :=
    init_after trivial (by decide +kernel)
  have hs : Settled Quad.load (after Quad.load []) :=
    settled_of_reachable (R := fun _ => True) (.init ⟨regs, trivial, hload⟩)
  have hrange₁ : (Quad.alloc Quad.first 0 0x3).CmgInRange := Event.cmgInRange_of_test (by decide)
  have hrange₂ : (Quad.alloc Quad.other 2 0xC).CmgInRange := Event.cmgInRange_of_test (by decide)
  have hlook₁ : look (Quad.alloc Quad.first 0 0x3) (after Quad.load []) =
      .inr (Quad.call Quad.first 0, .alloc ⟨⟨some ⟨0, 0⟩, true⟩, some 0x3⟩
        (check_cpumask 0xF (after Quad.load []).dev (clean_cpumask 0x3)) (clean_cpumask 0x3)) := by
    have hcmg : ¬(check_cpumask 0xF (after Quad.load []).dev (clean_cpumask 0x3) < 0 ∨
        check_cpumask 0xF (after Quad.load []).dev (clean_cpumask 0x3) > MAX_NUM_CMG) := by
      decide +kernel
    exact if_neg (t := .inl { err := -EINVAL }) hcmg
  obtain ⟨k₂, hlook₂⟩ : ∃ k, look (Quad.alloc Quad.other 2 0xC) (after Quad.load []) = .inr k :=
    Sum.isRight_iff.mp (by decide +kernel)
  have htest : ((handle (Quad.alloc Quad.first 0 0x3) (after Quad.load [])).bind fun x =>
      (handle (Quad.alloc Quad.other 2 0xC) x.2).map fun y => (x.1.bb_ctl, y.1.bb_ctl)).toOption =
        some (some ⟨0, 0⟩, some ⟨0, 1⟩) := by decide +kernel
  cases hfirst : handle (Quad.alloc Quad.first 0 0x3) (after Quad.load []) with
  | error f =>
      rw [hfirst] at htest
      cases htest
  | ok x =>
      rw [hfirst] at htest
      have hs₁ : Settled Quad.load x.2 := hs.step hrange₁ hfirst
      cases hsecond : handle (Quad.alloc Quad.other 2 0xC) x.2 with
      | error f =>
          simp only [Except.bind, hsecond] at htest
          cases htest
      | ok y =>
          simp only [Except.bind, hsecond, Except.map, Except.toOption, Option.some.injEq,
            Prod.mk.injEq] at htest
          have hs₂ : Settled Quad.load y.2 := hs₁.step hrange₂ hsecond
          rw [← whole_calls Quad.load] at hfirst hsecond
          obtain ⟨a₁, b₁, hlock₁, hwork₁, hunlock₁⟩ := (whole_eq_ok hlook₁).mp hfirst
          have hlock : spin_lock_dev (after Quad.load []) = .ok a₁ := hlock₁
          obtain ⟨-, hheld, hdev⟩ := dev_lock_of_lock hlock
          -- the mapping is made first
          have hmicro : Micro Quad.load (Quad.call Quad.first 0) (fun _ => True) a₁
              { a₁ with dev := a₁.dev.map_group Quad.first } := by
            refine .map_group ?_ trivial
            rw [hdev]
            decide +kernel
          have htable : SameTable (loaded_device Quad.load) a₁.dev := hdev ▸ hs.table
          -- the second looks at this, and later works on what the first has left
          have hmid := (look_same hs.table (htable.trans hmicro.sameTable) _).trans hlook₂
          have hnext := (look_same hs.table hs₁.table _).trans hlook₂
          obtain ⟨a₂, b₂, hlock₂, hwork₂, hunlock₂⟩ := (whole_eq_ok hnext).mp hsecond
          obtain ⟨w, hrun, hw⟩ : ∃ w, Trace ((calls Quad.load).Step Event.CmgInRange)
              (World.start (after Quad.load []) .idle)
              [.call false (Quad.alloc Quad.first 0 0x3),
                .call true (Quad.alloc Quad.other 2 0xC), .quiet false, .quiet false, .quiet false,
                .quiet true, .quiet false, .commit false (Quad.alloc Quad.first 0 0x3) x.1,
                .quiet true, .quiet true, .commit true (Quad.alloc Quad.other 2 0xC) y.1] w ∧
              w.shared = y.2 :=
            ⟨_, .cons (.call rfl hrange₁) (.cons (.call rfl hrange₂) (.cons (.look rfl hlook₁)
              (.cons (.lock rfl hlock₁) (.cons (.write rfl ⟨.single hmicro, hheld⟩)
              (.cons (.look rfl hmid) (.cons (.work rfl hwork₁) (.cons (.unlock rfl hunlock₁)
              (.cons (.lock rfl hlock₂) (.cons (.work rfl hwork₂) (.cons (.unlock rfl hunlock₂)
              (.nil _))))))))))), rfl⟩
          obtain ⟨v, -, hreach, -, -, hfree, -⟩ :=
            interleaved_calls_are_atomic (R := fun _ => True) trivial hload hrun
          refine ⟨_, w, v.shared, x.1, y.1, hrun, htest.1, htest.2, hreach, hfree ?_⟩
          rw [hw, hs₂.locks]
          rfl

end Interleaved

end A64fxHwb
