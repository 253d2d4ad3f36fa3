/-
One group beside others.

In `Confinement.lean` the groups kept to CMGs of their own. Without any such rule a group
meets the others in two places only: a blade it would get is taken, or a window it would
get is busy. `serve_beside` is the service of one group where some places and windows are
occupied already, whoever may have them. In a run of the driver the requests of one group
and their replies are a run of that service (`others_only_take_room`): the replies to all
other requests, and everything that the group holds, come from what it did itself.
-/
import A64fxHwb.Confinement
import A64fxHwb.Share
import A64fxHwb.Undo

set_option autoImplicit false

namespace A64fxHwb

open BitWord Leasing Runs

variable {hw : Machine} {l : Load hw} {c : Call hw} {e : Event hw} {m : Manager} {g : ℕ} {n : ℤ}

/-! ## The service where room is taken -/

namespace Manager

variable (o : Occupied (ℕ × ℕ) ℕ ℕ) (l : Load hw) (c : Call hw) (m : Manager)

/-- BB_ALLOC on a CMG. A blade is free when nobody has it. -/
noncomputable def allocate_beside (mask : cpumask_t) (cmg : Fin MAX_NUM_CMG) :
    (ℤ × Option ℕ) × Manager :=
  if m.book.leader c.task.tgid = none ∧ c.kmalloc_taskmap = false then ((-1, none), m)
  else
    let book := m.book.enrol c.task.tgid c.task.pid
    match lowestFree (fun b => book.lease (cmg.val, b) ≠ none ∨ o.taken (cmg.val, b))
      MAX_BB_PER_CMG with
    | none => ((-ENODEV, none), { m with book := book })
    | some b =>
      let lease : Lease ℕ ℕ ℕ :=
        { group := c.task.tgid, members := { k | mask.getLsbD k = true }, seat := fun _ => none }
      ((0, some b), { m with
        book := if c.kmalloc_alloc then book.grant (cmg.val, b) lease else book })

/-- BB_ALLOC. -/
noncomputable def alloc_beside (arg : AllocArg) : Reply × Manager :=
  match arg.read, arg.pemask with
  | some _, some mask =>
    match asked l c.online mask with
    | none => ({ err := -EINVAL }, m)
    | some cmg =>
      let (ret, m) := m.allocate_beside o c mask cmg
      (alloc_reply arg cmg.val ret, m)
  | _, _ => ({ err := -EINVAL }, m)

open Classical in
/-- The window for a CPU of the lease. One is free when no group uses it on that CPU. -/
noncomputable def window_beside (window : ℤ) (lease : Lease ℕ ℕ ℕ) : Except ℤ ℕ :=
  if window < 0 then
    match lease.seat c.cpu,
      lowestFree (fun w => m.book.InUse c.cpu w ∨ o.busy c.cpu w) MAX_BW_PER_CMG with
    | none, some w => .ok w
    | _, _ => .error (-ENODEV)
  else if m.book.InUse c.cpu window.toNat ∨ o.busy c.cpu window.toNat then .error (-EINVAL)
  else if window < MAX_BW_PER_CMG then .ok window.toNat
  else .error (-ENODEV)

open Classical in
/-- BW_ASSIGN. -/
noncomputable def assign_beside (arg : UserArg fujitsu_hwb_ioc_bw_ctl) : Reply × Manager :=
  match arg.read with
  | none => ({ err := -1 }, m)
  | some ioc =>
    let place := ((hw.cmg c.cpu).val, ioc.bb.toNat)
    if cpumask_weight c.cpus_mask > 1 then (assign_reply arg ioc (-EINVAL, none), m)
    else
      match m.book.leaseOf c.task.tgid place with
      | none => (assign_reply arg ioc (-ENODEV, none), m)
      | some lease =>
        if c.cpu ∈ lease.members then
          match m.window_beside o c ioc.window.toInt lease with
          | .error err => (assign_reply arg ioc (err, none), m)
          | .ok w => (assign_reply arg ioc (0, some w),
              { m with book := m.book.grant place (lease.seated c.cpu (some w)) })
        else (assign_reply arg ioc (-ENODEV, none), m)

end Manager

/-- **The service of one group beside others**, which occupy `o`. BB_ALLOC and BW_ASSIGN
look for room; every other request is served as if there were no others. -/
noncomputable def serve_beside (o : Occupied (ℕ × ℕ) ℕ ℕ) (l : Load hw) (e : Event hw)
    (m : Manager) : Reply × Manager :=
  match e.request with
  | .ioctl (.BB_ALLOC arg) => m.alloc_beside o l e.call arg
  | .ioctl (.BW_ASSIGN arg) => m.assign_beside o e.call arg
  | _ => serve l e m

/-- The share of group `g` in a manager, with `n` files open. -/
def Manager.share (m : Manager) (g : ℕ) (n : ℤ) : Manager where
  book := m.book.share g
  files := n

theorem leader_in_share : (m.share g n).book.leader g = m.book.leader g :=
  Book.leader_share m.book g

theorem leaseOf_in_share (p : ℕ × ℕ) : (m.share g n).book.leaseOf g p = m.book.leaseOf g p :=
  Book.leaseOf_share m.book g p

/-! ## The group's own requests -/

section Own

variable (hg : c.task.tgid = g)

include hg

theorem allocate_share (mask : cpumask_t) (cmg : Fin MAX_NUM_CMG) :
    (m.share g n).allocate_beside (m.book.others g) c mask cmg =
      ((m.allocate c mask cmg).1, (m.allocate c mask cmg).2.share g n) := by
  have henrol : (m.share g n).book.enrol g c.task.pid = (m.book.enrol g c.task.pid).share g :=
    (Book.share_enrol m.book g c.task.pid).symm
  -- a blade is free when it is in neither part of the book
  have hsearch : lowestFree (fun b =>
        ((m.book.enrol g c.task.pid).share g).lease (cmg.val, b) ≠ none ∨
          (m.book.others g).taken (cmg.val, b)) MAX_BB_PER_CMG =
      lowestFree (fun b => (m.book.enrol g c.task.pid).lease (cmg.val, b) ≠ none)
        MAX_BB_PER_CMG :=
    lowestFree_congr fun b _ => (Book.lease_ne_none (m.book.enrol g c.task.pid) g _).symm
  unfold Manager.allocate_beside Manager.allocate
  simp only [hg, leader_in_share, henrol, hsearch]
  by_cases hmem : m.book.leader g = none ∧ c.kmalloc_taskmap = false
  · rw [if_pos hmem, if_pos hmem]
  · rw [if_neg hmem, if_neg hmem]
    cases lowestFree _ MAX_BB_PER_CMG with
    | none => rfl
    | some b =>
        have hgrant := Book.share_grant (m.book.enrol g c.task.pid) (cmg.val, b) (g := g)
          (L := { group := g, members := { k | mask.getLsbD k = true }, seat := fun _ => none }) rfl
        simp only [← hgrant]
        cases c.kmalloc_alloc with
        | false => rfl
        | true => rfl

/-- BB_ALLOC. -/
theorem alloc_share (arg : AllocArg) :
    (m.share g n).alloc_beside (m.book.others g) l c arg =
      ((m.alloc l c arg).1, (m.alloc l c arg).2.share g n) := by
  unfold Manager.alloc_beside Manager.alloc
  cases arg.read with
  | none => rfl
  | some ioc =>
      cases arg.pemask with
      | none => rfl
      | some mask =>
          simp only
          cases asked l c.online mask with
          | none => rfl
          | some cmg => simp only [allocate_share hg]

/-- BB_FREE. -/
theorem free_share (arg : UserArg fujitsu_hwb_ioc_bb_ctl) :
    (m.share g n).free c arg = ((m.free c arg).1, (m.free c arg).2.share g n) := by
  unfold Manager.free
  cases arg.read with
  | none => rfl
  | some ioc =>
      simp only [hg, leaseOf_in_share, leader_in_share]
      cases hL : m.book.leaseOf g (ioc.cmg.toNat, ioc.bb.toNat) with
      | none => rfl
      | some L =>
          have hgroup : L.group = g := (Book.leaseOf_eq_some.mp hL).2
          have hrevoke : (m.share g n).book.revoke (ioc.cmg.toNat, ioc.bb.toNat) =
              (m.book.revoke (ioc.cmg.toNat, ioc.bb.toNat)).share g :=
            (Book.share_revoke m.book g _).symm
          have hwithdraw : (m.share g n).book.withdraw (ioc.cmg.toNat, ioc.bb.toNat) L c.cpu =
              (m.book.withdraw (ioc.cmg.toNat, ioc.bb.toNat) L c.cpu).share g :=
            (Book.share_withdraw m.book _ hgroup c.cpu).symm
          simp only [hrevoke, hwithdraw]
          split_ifs
          · rw [← Book.share_retire]
            rfl
          · rw [← Book.share_retire]
            rfl

omit hg in
/-- The window for a CPU. -/
theorem window_share (window : ℤ) (L : Lease ℕ ℕ ℕ) :
    (m.share g n).window_beside (m.book.others g) c window L = m.window_for c window L := by
  have huse : ∀ w, (m.share g n).book.InUse c.cpu w ∨ (m.book.others g).busy c.cpu w ↔
      m.book.InUse c.cpu w := fun w => (Book.inUse_share m.book g c.cpu w).symm
  have hsearch := lowestFree_congr (n := MAX_BW_PER_CMG) fun w _ => huse w
  unfold Manager.window_beside Manager.window_for
  by_cases hneg : window < 0
  · cases hseat : L.seat c.cpu with
    | none => cases hfree : lowestFree (m.book.InUse c.cpu) MAX_BW_PER_CMG with
      | none => simp only [if_pos hneg, hsearch.trans hfree]
      | some w => simp only [if_pos hneg, hsearch.trans hfree]
    | some w => simp only [if_pos hneg]
  · rw [if_neg hneg, if_neg hneg]
    by_cases hbusy : m.book.InUse c.cpu window.toNat
    · rw [if_pos hbusy, if_pos ((huse _).mpr hbusy)]
    · rw [if_neg hbusy, if_neg fun h => hbusy ((huse _).mp h)]

/-- BW_ASSIGN. -/
theorem assign_share (arg : UserArg fujitsu_hwb_ioc_bw_ctl) :
    (m.share g n).assign_beside (m.book.others g) c arg =
      ((m.assign c arg).1, (m.assign c arg).2.share g n) := by
  unfold Manager.assign_beside Manager.assign
  cases arg.read with
  | none => rfl
  | some ioc =>
      simp only [hg, leaseOf_in_share]
      by_cases hpinned : cpumask_weight c.cpus_mask > 1
      · rw [if_pos hpinned, if_pos hpinned]
      · rw [if_neg hpinned, if_neg hpinned]
        cases hL : m.book.leaseOf g ((hw.cmg c.cpu).val, ioc.bb.toNat) with
        | none => rfl
        | some L =>
            have hgroup : L.group = g := (Book.leaseOf_eq_some.mp hL).2
            simp only [window_share]
            by_cases hmem : c.cpu ∈ L.members
            · rw [if_pos hmem, if_pos hmem]
              cases m.window_for c ioc.window.toInt L with
              | error err => rfl
              | ok w =>
                  have hgrant := Book.share_grant m.book ((hw.cmg c.cpu).val, ioc.bb.toNat)
                    (L := L.seated c.cpu (some w)) hgroup
                  simp only [Manager.share, hgrant]
            · rw [if_neg hmem, if_neg hmem]

/-- BW_UNASSIGN. -/
theorem unassign_share (arg : UserArg fujitsu_hwb_ioc_bw_ctl) :
    (m.share g n).unassign c arg = ((m.unassign c arg).1, (m.unassign c arg).2.share g n) := by
  unfold Manager.unassign
  cases arg.read with
  | none => rfl
  | some ioc =>
      simp only [hg, leaseOf_in_share, leader_in_share]
      by_cases hpinned : cpumask_weight c.cpus_mask > 1
      · rw [if_pos hpinned, if_pos hpinned]
      · rw [if_neg hpinned, if_neg hpinned]
        by_cases hlead : m.book.leader g = none
        · rw [if_pos hlead, if_pos hlead]
        · rw [if_neg hlead, if_neg hlead]
          cases hL : (m.book.leaseOf g ((hw.cmg c.cpu).val, ioc.bb.toNat)).filter
              fun lease => (lease.seat c.cpu).isSome with
          | none => rfl
          | some L =>
              have hgroup := (Book.leaseOf_eq_some.mp (Option.filter_eq_some_iff.mp hL).1).2
              have hgrant := Book.share_grant m.book ((hw.cmg c.cpu).val, ioc.bb.toNat)
                (L := L.seated c.cpu none) hgroup
              simp only [Manager.share, hgrant]

/-- A close, with a file of the group's own open. -/
theorem close_share (hn : 0 < n) (hfiles : 0 < m.files) :
    (m.share g n).close c = (m.close c).share g (n - 1) := by
  have hfiles' : (m.share g n).files > 0 := hn
  have hdissolve : (m.share g n).book.dissolve g = (m.book.dissolve g).share g :=
    (Book.share_dissolve m.book g).symm
  unfold Manager.close
  rw [if_pos hfiles', if_pos hfiles, hg, leader_in_share, hdissolve]
  split_ifs
  · rfl
  · rfl

end Own

/-- **A request of the group** is served in its share as it is in the whole, beside what
the others occupy. -/
theorem serve_share (hg : e.call.task.tgid = g) (hreset : e.request ≠ .ioctl .RESET)
    (hn : e.request = .close → 0 < n ∧ 0 < m.files) :
    serve_beside (m.book.others g) l e (m.share g n) =
      ((serve l e m).1, (serve l e m).2.share g (n + e.request.files)) := by
  unfold serve_beside serve
  cases hr : e.request with
  | «open» => rfl
  | close =>
      obtain ⟨hn, hfiles⟩ := hn hr
      simp only [close_share hg hn hfiles]
      rfl
  | ioctl ioc =>
      rw [Request.files, add_zero]
      cases ioc with
      | GET_PE_INFO arg => rfl
      | BB_ALLOC arg => exact alloc_share hg arg
      | BB_FREE arg => exact free_share hg arg
      | BW_ASSIGN arg => exact assign_share hg arg
      | BW_UNASSIGN arg => exact unassign_share hg arg
      | RESET => exact absurd hr hreset
      | other => rfl

/-! ## The requests of others -/

section Other

variable (hg : c.task.tgid ≠ g)

include hg

theorem allocate_other (mask : cpumask_t) (cmg : Fin MAX_NUM_CMG) :
    (m.allocate c mask cmg).2.book.share g = m.book.share g := by
  have henrol : (m.book.enrol c.task.tgid c.task.pid).share g = m.book.share g :=
    Book.share_enrol_of_ne hg m.book c.task.pid
  unfold Manager.allocate
  split_ifs with hmem halloc
  · rfl
  · dsimp only
    cases hfree : lowestFree _ MAX_BB_PER_CMG with
    | none => exact henrol
    | some b =>
        -- the blade that is leased was free
        have hnone := not_not.mp (lowestFree_eq_some.mp hfree).1
        have hleaseOf : (m.book.enrol c.task.tgid c.task.pid).leaseOf g (cmg.val, b) = none := by
          unfold Book.leaseOf
          rw [hnone, Option.filter_none]
        dsimp only
        rw [Book.share_grant_of_ne hleaseOf hg, henrol]
  · dsimp only
    cases lowestFree _ MAX_BB_PER_CMG with
    | none => exact henrol
    | some b => exact henrol

/-- A lease of another group is at a place that the group does not have. -/
theorem leaseOf_other {p : ℕ × ℕ} {L : Lease ℕ ℕ ℕ}
    (hL : m.book.leaseOf c.task.tgid p = some L) : m.book.leaseOf g p = none ∧ L.group ≠ g := by
  obtain ⟨hlease, hgroup⟩ := Book.leaseOf_eq_some.mp hL
  have hne : L.group ≠ g := by
    rw [hgroup]
    exact hg
  refine ⟨Book.leaseOf_eq_none.mpr fun L' hL' => ?_, hne⟩
  rw [hlease, Option.some_inj] at hL'
  rw [← hL']
  exact hne

theorem free_other (arg : UserArg fujitsu_hwb_ioc_bb_ctl) :
    (m.free c arg).2.book.share g = m.book.share g := by
  unfold Manager.free
  cases arg.read with
  | none => rfl
  | some ioc =>
      simp only
      cases hL : m.book.leaseOf c.task.tgid (ioc.cmg.toNat, ioc.bb.toNat) with
      | none => rfl
      | some L =>
          obtain ⟨hnone, hgroup⟩ := leaseOf_other hg hL
          simp only [Book.share_retire_of_ne hg]
          split_ifs
          · exact Book.share_revoke_of_ne hnone
          · exact Book.share_withdraw_of_ne hnone hgroup c.cpu

theorem assign_other (arg : UserArg fujitsu_hwb_ioc_bw_ctl) :
    (m.assign c arg).2.book.share g = m.book.share g := by
  unfold Manager.assign
  cases arg.read with
  | none => rfl
  | some ioc =>
      simp only
      split_ifs
      · rfl
      · cases hL : m.book.leaseOf c.task.tgid ((hw.cmg c.cpu).val, ioc.bb.toNat) with
        | none => rfl
        | some L =>
            obtain ⟨hnone, hgroup⟩ := leaseOf_other hg hL
            simp only
            split_ifs
            · cases m.window_for c ioc.window.toInt L with
              | error err => rfl
              | ok w => exact Book.share_grant_of_ne hnone hgroup
            · rfl

theorem unassign_other (arg : UserArg fujitsu_hwb_ioc_bw_ctl) :
    (m.unassign c arg).2.book.share g = m.book.share g := by
  unfold Manager.unassign
  cases arg.read with
  | none => rfl
  | some ioc =>
      simp only
      split_ifs
      · rfl
      · rfl
      · cases hL : (m.book.leaseOf c.task.tgid ((hw.cmg c.cpu).val, ioc.bb.toNat)).filter
            fun lease => (lease.seat c.cpu).isSome with
        | none => rfl
        | some L =>
            obtain ⟨hnone, hgroup⟩ := leaseOf_other hg (Option.filter_eq_some_iff.mp hL).1
            exact Book.share_grant_of_ne hnone hgroup

end Other

/-- **A request of another group** leaves the share as it is. -/
theorem serve_share_other (hg : e.call.task.tgid ≠ g) (hreset : e.request ≠ .ioctl .RESET) :
    (serve l e m).2.book.share g = m.book.share g := by
  unfold serve
  cases hr : e.request with
  | «open» => rfl
  | close =>
      dsimp only
      unfold Manager.close
      split_ifs
      · exact Book.share_dissolve_of_ne hg m.book
      · rfl
      · rfl
  | ioctl ioc =>
      cases ioc with
      | GET_PE_INFO arg => rfl
      | BB_ALLOC arg =>
          dsimp only
          unfold Manager.alloc
          cases arg.read with
          | none => rfl
          | some ioc =>
              cases arg.pemask with
              | none => rfl
              | some mask =>
                  dsimp only
                  cases asked l e.call.online mask with
                  | none => rfl
                  | some cmg => exact allocate_other hg mask cmg
      | BB_FREE arg => exact free_other hg arg
      | BW_ASSIGN arg => exact assign_other hg arg
      | BW_UNASSIGN arg => exact unassign_other hg arg
      | RESET => exact absurd hr hreset
      | other => rfl

/-! ## Runs -/

/-- One request of a group, with its reply, whatever others occupy at the time. -/
def ServesBeside (l : Load hw) (m : Manager) (y : Event hw × Reply) (m' : Manager) : Prop :=
  ∃ o, serve_beside o l y.1 m = (y.2, m')

/-- A run that has come to `m`, with `ys` still to come, and the run of the calls of `g` in
it, which has come to `m₀`. -/
structure InShare (l : Load hw) (g : ℕ) (ys : List (Event hw × Reply)) (m m₀ : Manager) :
    Prop where
  reset : ∀ y ∈ ys, y.1.request ≠ .ioctl .RESET
  share : m₀ = m.share g m₀.files
  nonneg : 0 ≤ m₀.files
  le_files : m₀.files ≤ m.files
  own : FilesMatched (fun e => e.call.task.tgid = g) m₀.files (ys.map Prod.fst)
  other : FilesMatched (fun e => ¬e.call.task.tgid = g) (m.files - m₀.files) (ys.map Prod.fst)

variable {y : Event hw × Reply} {ys : List (Event hw × Reply)} {m' m₀ : Manager}

theorem InShare.own_step (h : InShare l g (y :: ys) m m₀) (hg : y.1.call.task.tgid = g)
    (hstep : Serves l m y m') : ∃ m₁, ServesBeside l m₀ y m₁ ∧ InShare l g ys m' m₁ := by
  obtain ⟨-, hserve⟩ := hstep
  have hreset := h.reset y List.mem_cons_self
  have hown := h.own
  rw [List.map_cons, FilesMatched, if_pos hg] at hown
  have hother := h.other
  rw [List.map_cons, FilesMatched, if_neg (not_not_intro hg)] at hother
  have hle := h.le_files
  have hclose : y.1.request = .close → 0 < m₀.files ∧ 0 < m.files := by
    intro hr
    have hpos := pos_of_close hown.1 hr
    exact ⟨hpos, by omega⟩
  have hfiles : m'.files = m.files + y.1.request.files := by
    rw [← serve_files hreset fun hr => (hclose hr).2, hserve]
  have hshare := serve_share (l := l) (n := m₀.files) hg hreset hclose
  rw [hserve, ← h.share] at hshare
  refine ⟨m'.share g (m₀.files + y.1.request.files), ⟨m.book.others g, hshare⟩,
    fun z hz => h.reset z (List.mem_cons_of_mem _ hz), rfl, hown.1, ?_, hown.2, ?_⟩
  · change m₀.files + y.1.request.files ≤ m'.files
    omega
  · change FilesMatched _ (m'.files - (m₀.files + y.1.request.files)) _
    rw [hfiles, add_sub_add_right_eq_sub]
    exact hother

theorem InShare.other_step (h : InShare l g (y :: ys) m m₀) (hg : ¬y.1.call.task.tgid = g)
    (hstep : Serves l m y m') : InShare l g ys m' m₀ := by
  obtain ⟨-, hserve⟩ := hstep
  have hreset := h.reset y List.mem_cons_self
  have hown := h.own
  rw [List.map_cons, FilesMatched, if_neg hg] at hown
  have hother := h.other
  rw [List.map_cons, FilesMatched, if_pos hg] at hother
  have hnonneg := h.nonneg
  have hrest := hother.1
  have hclose : y.1.request = .close → 0 < m.files := by
    intro hr
    have hpos := pos_of_close hrest hr
    omega
  have hfiles : m'.files = m.files + y.1.request.files := by
    rw [← serve_files hreset hclose, hserve]
  have hshare := serve_share_other (l := l) (m := m) hg hreset
  rw [hserve] at hshare
  refine ⟨fun z hz => h.reset z (List.mem_cons_of_mem _ hz), ?_, hnonneg, by omega, hown, ?_⟩
  · rw [h.share]
    unfold Manager.share
    rw [hshare]
  · rw [hfiles, show m.files + y.1.request.files - m₀.files =
      m.files - m₀.files + y.1.request.files by omega]
    exact hother.2

/-- **Others only take room.** Take one group out of a run of cautious requests. Its
requests and the replies to them are a run of the service of one group beside others, and
what it leads and holds at the end is what that run comes to. -/
theorem others_only_take_room {s t : Kernel} {regs : hwb_regs} (hR : AllInvalid regs)
    (hload : Loaded l regs s) (h : Trace (Handles l) s ys t) (g : ℕ)
    (hreset : ∀ y ∈ ys, y.1.request ≠ .ioctl .RESET)
    (hown : FilesMatched (fun e => e.call.task.tgid = g) 0 (ys.map Prod.fst))
    (hother : FilesMatched (fun e => ¬e.call.task.tgid = g) 0 (ys.map Prod.fst)) :
    ∃ n, Trace (ServesBeside l) { book := Book.empty, files := 0 }
      (ys.filter fun y => y.1.call.task.tgid = g) ((t.manager l).share g n) := by
  obtain ⟨hserves, -⟩ := serves_of_handles (StandsFor.loaded hR hload) h
  have hshare : InShare l g ys { book := Book.empty, files := 0 }
      { book := Book.empty, files := 0 } := by
    refine ⟨hreset, ?_, le_refl 0, le_refl 0, hown, hother⟩
    unfold Manager.share
    rw [Book.share_empty]
  obtain ⟨m₀, halone, hend⟩ := hserves.erase
    (P := fun y : Event hw × Reply => y.1.call.task.tgid = g) (R := InShare l g) hshare
    (fun y ys m m' m₀ h hg hstep => h.own_step hg hstep)
    (fun y ys m m' m₀ h hg hstep => h.other_step hg hstep)
  refine ⟨m₀.files, ?_⟩
  rw [← hend.share]
  exact halone

theorem ne_reset_of_test (h : e.no_reset = true) : e.request ≠ .ioctl .RESET := by
  intro he
  unfold Event.no_reset at h
  rw [he] at h
  cases h

/-- Two processes on one CMG whose blades have a CPU in common, where each takes a window. -/
def side_by_side : List (Event Quad.machine) :=
  [Quad.open Quad.first 0, Quad.open Quad.other 2, Quad.alloc Quad.first 0 0x3,
    Quad.alloc Quad.other 2 0x6, Quad.assign Quad.first 1 0 (-1), Quad.assign Quad.other 1 1 (-1),
    Quad.unassign Quad.first 1 0, Quad.unassign Quad.other 1 1, Quad.close Quad.first 0,
    Quad.close Quad.other 2]

theorem others_only_take_room_side_by_side : ∃ ys t n, ys.map Prod.fst = side_by_side ∧
    Trace (Handles Quad.load) (after Quad.load []) ys t ∧
    Trace (ServesBeside Quad.load) { book := Book.empty, files := 0 }
      (ys.filter fun y => y.1.call.task.tgid = 20) ((t.manager Quad.load).share 20 n) := by
  obtain ⟨s, hload, hrun⟩ :=
    run_of_succeeds (show succeeds Quad.load side_by_side = true by decide +kernel)
  have hcautious : ∀ e ∈ side_by_side, ∀ m, Cautious Quad.load e m := by
    intro e he m
    have htest : ∀ e ∈ side_by_side, e.mild = true ∧ e.call.online = 0xF ∧
        Quad.load.online.getLsbD e.call.cpu = true := by decide
    obtain ⟨hmild, honline, hcpu⟩ := htest e he
    refine cautious_of_mild hmild hcpu (fun k hk => ?_) m
    rw [honline]
    exact hk
  obtain ⟨ys, hys, htrace⟩ := handles_of_run hcautious hrun
  have hstart : after Quad.load [] = s := after_eq_of_run hload rfl
  have hinvalid : AllInvalid hwb_regs.cleared := by
    intro k w
    exact BitVec.getLsbD_zero
  have hreset : ∀ y ∈ ys, y.1.request ≠ .ioctl .RESET := by
    have htest : ∀ e ∈ side_by_side, e.no_reset = true := by decide
    intro y hy
    apply ne_reset_of_test
    apply htest
    rw [← hys]
    exact List.mem_map_of_mem hy
  obtain ⟨n, hbeside⟩ := others_only_take_room hinvalid hload htrace 20 hreset
    (by rw [hys]; decide) (by rw [hys]; decide)
  rw [hstart]
  exact ⟨ys, _, n, hys, htrace, hbeside⟩

end A64fxHwb
