/-
What a group may rely on between BB_ALLOC and BB_FREE.

A program that has a blade knows its number, its own threads and the replies they were
given, and it exits as soon as one of them is an error. This is what the driver owes it.
From the reply to BB_ALLOC on, until a request gives the blade up, the blade is the
group's, with the CPUs it asked for, and the windows it has there are those it was told
(`told`), whatever other groups do. So a BW_UNASSIGN by a CPU that was told a window does
not fail, nor does the BB_FREE of the leader, and a BW_ASSIGN finds a window as long as
the CPU has one left.
-/
import A64fxHwb.Room

set_option autoImplicit false

namespace A64fxHwb

open BitWord Leasing Runs

variable {hw : Machine} {l : Load hw} {c : Call hw} {e : Event hw} {m m' : Manager}
variable {g leader : ℕ} {p : ℕ × ℕ} {L : Lease ℕ ℕ ℕ} {reply : Reply}

/-! ## What a group has, and what it is told -/

/-- Group `g`, led by thread `leader`, has the lease `L` of place `p`. -/
structure Has (g leader : ℕ) (p : ℕ × ℕ) (L : Lease ℕ ℕ ℕ) (m : Manager) : Prop where
  leader : m.book.leader g = some leader
  lease : m.book.leaseOf g p = some L

/-- The request gives place `p` up, which group `g` has: a BB_FREE that names it, the close
of the leader, or a RESET by anybody. -/
def Event.GivesUp (g leader : ℕ) (p : ℕ × ℕ) (e : Event hw) : Prop :=
  match e.request with
  | .close => e.call.task.tgid = g ∧ e.call.task.pid = leader
  | .ioctl (.BB_FREE arg) =>
    e.call.task.tgid = g ∧ ∃ ioc, arg.read = some ioc ∧ (ioc.cmg.toNat, ioc.bb.toNat) = p
  | .ioctl .RESET => True
  | _ => False

/-- A window request of group `g` whose reply can be written. -/
def Event.Heard (g : ℕ) (e : Event hw) : Prop :=
  e.call.task.tgid = g → match e.request with
    | .ioctl (.BW_ASSIGN arg) => arg.writable = true
    | .ioctl (.BW_UNASSIGN arg) => arg.writable = true
    | _ => True

/-- The windows at place `p` after one more reply to group `g`, as the group is told. -/
def told (g : ℕ) (p : ℕ × ℕ) (seat : ℕ → Option ℕ) (y : Event hw × Reply) : ℕ → Option ℕ :=
  match y.1.request, y.2.bw_ctl with
  | .ioctl (.BW_ASSIGN _), some ioc =>
    if y.1.call.task.tgid = g ∧ ((hw.cmg y.1.call.cpu).val, ioc.bb.toNat) = p then
      Function.update seat y.1.call.cpu (some ioc.window.toNat)
    else seat
  | .ioctl (.BW_UNASSIGN _), some ioc =>
    if y.1.call.task.tgid = g ∧ ((hw.cmg y.1.call.cpu).val, ioc.bb.toNat) = p then
      Function.update seat y.1.call.cpu none
    else seat
  | _, _ => seat

section Told

variable {seat : ℕ → Option ℕ} {y : Event hw × Reply}

/-- A reply without a window tells nothing of one, -/
theorem told_of_none (h : y.2.bw_ctl = none) : told g p seat y = seat := by
  unfold told
  rw [h]
  cases y.1.request with
  | «open» => rfl
  | close => rfl
  | ioctl ioc => cases ioc <;> rfl

/-- nor does a reply to another group. -/
theorem told_of_ne (h : y.1.call.task.tgid ≠ g) : told g p seat y = seat := by
  unfold told
  split
  · exact if_neg fun hg => h hg.1
  · exact if_neg fun hg => h hg.1
  · rfl

theorem assign_reply_refused {arg : UserArg fujitsu_hwb_ioc_bw_ctl} {ioc : fujitsu_hwb_ioc_bw_ctl}
    {err : ℤ} (h : err ≠ 0) : (assign_reply arg ioc (err, none)).bw_ctl = none := by
  unfold assign_reply
  rw [if_pos h]

theorem unassign_reply_refused {arg : UserArg fujitsu_hwb_ioc_bw_ctl}
    {ioc : fujitsu_hwb_ioc_bw_ctl} {err : ℤ} (h : err ≠ 0) :
    (unassign_reply arg ioc err).bw_ctl = none := by
  unfold unassign_reply
  rw [if_pos h]

theorem assign_reply_granted {arg : UserArg fujitsu_hwb_ioc_bw_ctl} {ioc : fujitsu_hwb_ioc_bw_ctl}
    {w : ℤ} (h : arg.writable = true) : (assign_reply arg ioc (0, some w)).bw_ctl =
      some { ioc with window := BitVec.ofInt 8 w } := by
  unfold assign_reply
  rw [if_neg (not_not_intro rfl), if_pos h]
  rfl

theorem unassign_reply_granted {arg : UserArg fujitsu_hwb_ioc_bw_ctl}
    {ioc : fujitsu_hwb_ioc_bw_ctl} (h : arg.writable = true) :
    (unassign_reply arg ioc 0).bw_ctl = some ioc := by
  unfold unassign_reply
  rw [if_neg (not_not_intro rfl), if_pos h]

/-- The blade requests tell nothing of windows. -/
theorem bw_ctl_alloc (l : Load hw) (c : Call hw) (arg : AllocArg) (m : Manager) :
    (m.alloc l c arg).1.bw_ctl = none := by
  have hreply : ∀ cmg ret, (alloc_reply arg cmg ret).bw_ctl = none := by
    intro cmg ret
    unfold alloc_reply
    cases ret.2 with
    | none => rfl
    | some b =>
        dsimp only
        split_ifs
        · rfl
        · rfl
  unfold Manager.alloc
  cases arg.read with
  | none => rfl
  | some ioc =>
      cases arg.pemask with
      | none => rfl
      | some mask =>
          dsimp only
          cases asked l c.online mask with
          | none => rfl
          | some cmg => exact hreply _ _

theorem bw_ctl_free (c : Call hw) (arg : UserArg fujitsu_hwb_ioc_bb_ctl) (m : Manager) :
    (m.free c arg).1.bw_ctl = none := by
  have hreply : ∀ ioc err, (free_reply arg ioc err).bw_ctl = none := by
    intro ioc err
    unfold free_reply
    split_ifs
    · rfl
    · rfl
    · rfl
  unfold Manager.free
  cases arg.read with
  | none => rfl
  | some ioc =>
      dsimp only
      cases m.book.leaseOf c.task.tgid (ioc.cmg.toNat, ioc.bb.toNat) with
      | none => exact hreply ioc _
      | some L => exact hreply ioc _

end Told

/-- A window that is found is one of the four, -/
theorem window_for_lt {window : ℤ} {w : ℕ} (h : m.window_for c window L = .ok w) :
    w < MAX_BW_PER_CMG := by
  unfold Manager.window_for at h
  split_ifs at h with hneg hbusy hlt
  · cases hseat : L.seat c.cpu with
    | some w' =>
        rw [hseat] at h
        cases h
    | none =>
        rw [hseat] at h
        cases hfree : lowestFree (m.book.InUse c.cpu) MAX_BW_PER_CMG with
        | none =>
            rw [hfree] at h
            cases h
        | some w' =>
            rw [hfree] at h
            cases h
            exact (lowestFree_eq_some.mp hfree).2.1
  · cases h
    omega

/-- and a search that fails says so. -/
theorem window_for_error {window err : ℤ} (h : m.window_for c window L = .error err) :
    err ≠ 0 := by
  have hcases : err = -ENODEV ∨ err = -EINVAL := by
    unfold Manager.window_for at h
    split_ifs at h
    · cases hseat : L.seat c.cpu with
      | some w =>
          rw [hseat] at h
          cases h
          exact Or.inl rfl
      | none =>
          rw [hseat] at h
          cases hfree : lowestFree (m.book.InUse c.cpu) MAX_BW_PER_CMG with
          | none =>
              rw [hfree] at h
              cases h
              exact Or.inl rfl
          | some w =>
              rw [hfree] at h
              cases h
    · cases h
      exact Or.inr rfl
    · cases h
      exact Or.inl rfl
  rcases hcases with rfl | rfl
  · decide
  · decide

/-! ## One request -/

section Own

variable (h : Has g leader p L m) (hg : c.task.tgid = g)

include h hg

/-- A blade for the same group is another one. -/
theorem has_allocate (mask : cpumask_t) (cmg : Fin MAX_NUM_CMG) :
    Has g leader p L (m.allocate c mask cmg).2 := by
  have hlead : ¬(m.book.leader g = none ∧ c.kmalloc_taskmap = false) := by
    rw [h.leader]
    exact fun hnone => by cases hnone.1
  have henrol : m.book.enrol g c.task.pid = m.book := Book.enrol_of_leader h.leader
  unfold Manager.allocate
  simp only [hg, henrol, if_neg hlead]
  cases hfree : lowestFree (fun b => m.book.lease (cmg.val, b) ≠ none) MAX_BB_PER_CMG with
  | none => exact h
  | some b =>
      have hne : p ≠ (cmg.val, b) := by
        rintro rfl
        apply (lowestFree_eq_some.mp hfree).1
        rw [(Book.leaseOf_eq_some.mp h.lease).1]
        exact Option.some_ne_none L
      dsimp only
      cases c.kmalloc_alloc with
      | false => exact h
      | true => exact ⟨h.leader, (Book.leaseOf_grant_of_ne m.book g _ hne).trans h.lease⟩

theorem has_alloc (arg : AllocArg) : Has g leader p L (m.alloc l c arg).2 := by
  unfold Manager.alloc
  cases arg.read with
  | none => exact h
  | some ioc =>
      cases arg.pemask with
      | none => exact h
      | some mask =>
          dsimp only
          cases asked l c.online mask with
          | none => exact h
          | some cmg => exact has_allocate h hg mask cmg

theorem has_free {arg : UserArg fujitsu_hwb_ioc_bb_ctl}
    (hnot : ∀ ioc, arg.read = some ioc → (ioc.cmg.toNat, ioc.bb.toNat) ≠ p) :
    Has g leader p L (m.free c arg).2 := by
  unfold Manager.free
  cases hread : arg.read with
  | none => exact h
  | some ioc =>
      have hne : p ≠ (ioc.cmg.toNat, ioc.bb.toNat) := (hnot ioc hread).symm
      simp only [hg]
      cases m.book.leaseOf g (ioc.cmg.toNat, ioc.bb.toNat) with
      | none => exact h
      | some L' =>
          dsimp only
          split_ifs
          · have hlease : (m.book.revoke (ioc.cmg.toNat, ioc.bb.toNat)).leaseOf g p = some L :=
              (Book.leaseOf_revoke_of_ne m.book g hne).trans h.lease
            rw [Book.retire_of_leaseOf hlease]
            exact ⟨h.leader, hlease⟩
          · have hlease : (m.book.withdraw (ioc.cmg.toNat, ioc.bb.toNat) L' c.cpu).leaseOf g p =
                some L := (Book.leaseOf_withdraw_of_ne m.book g L' c.cpu hne).trans h.lease
            rw [Book.retire_of_leaseOf hlease]
            refine ⟨?_, hlease⟩
            unfold Book.withdraw
            split_ifs
            · exact h.leader
            · exact h.leader
            · exact h.leader

theorem has_close (hnot : c.task.pid ≠ leader) : Has g leader p L (m.close c) := by
  have hlead : ¬m.book.leader g = some c.task.pid := by
    rw [h.leader, Option.some_inj]
    exact hnot.symm
  unfold Manager.close
  rw [hg, if_neg hlead]
  split_ifs
  · exact ⟨h.leader, h.lease⟩
  · exact h

end Own

/-- The seats as they are. -/
theorem Has.same {seat : ℕ → Option ℕ} (h : Has g leader p L m) (hseat : seat = L.seat) :
    Has g leader p { L with seat := seat } m := by
  rw [hseat]
  exact h

section Window

variable (h : Has g leader p L m)

include h

/-- The CPU has another window at place `q` from now on, or none. -/
theorem Has.grant {q : ℕ × ℕ} {L' : Lease ℕ ℕ ℕ} (hL : m.book.leaseOf g q = some L') (k : ℕ)
    (o : Option ℕ) :
    Has g leader p { L with seat := if q = p then Function.update L.seat k o else L.seat }
      { m with book := m.book.grant q (L'.seated k o) } := by
  refine ⟨h.leader, ?_⟩
  dsimp only
  by_cases hp : q = p
  · obtain rfl : L = L' := by
      rw [hp, h.lease, Option.some_inj] at hL
      exact hL
    have hgroup : (L.seated k o).group = g := (Book.leaseOf_eq_some.mp h.lease).2
    rw [if_pos hp, hp, ← hgroup]
    exact Book.leaseOf_grant_self m.book p (L.seated k o)
  · rw [if_neg hp, Book.leaseOf_grant_of_ne m.book g _ (Ne.symm hp)]
    exact h.lease

variable (hg : e.call.task.tgid = g) {arg : UserArg fujitsu_hwb_ioc_bw_ctl}
  (hheard : arg.writable = true)

include hg hheard

/-- BW_ASSIGN seats the CPU that is told a window. -/
theorem has_assign (he : e.request = .ioctl (.BW_ASSIGN arg)) :
    Has g leader p { L with seat := told g p L.seat (e, (m.assign e.call arg).1) }
      (m.assign e.call arg).2 := by
  unfold Manager.assign
  cases hread : arg.read with
  | none => exact h.same (told_of_none rfl)
  | some ioc =>
      simp only [hg]
      split_ifs with hpin
      · exact h.same (told_of_none (assign_reply_refused (by decide)))
      · cases hL : m.book.leaseOf g ((hw.cmg e.call.cpu).val, ioc.bb.toNat) with
        | none => exact h.same (told_of_none (assign_reply_refused (by decide)))
        | some L' =>
            dsimp only
            split_ifs with hmem
            · cases hfor : m.window_for e.call ioc.window.toInt L' with
              | error err =>
                  exact h.same (told_of_none (assign_reply_refused (window_for_error hfor)))
              | ok w =>
                  have hw4 : w < 4 := window_for_lt hfor
                  have hval : (BitVec.ofInt 8 (w : ℤ)).toNat = w := by
                    rw [BitVec.ofInt_natCast, BitVec.toNat_ofNat]
                    omega
                  unfold told
                  simp only [he, assign_reply_granted hheard, hval, hg, true_and]
                  exact h.grant hL e.call.cpu (some w)
            · exact h.same (told_of_none (assign_reply_refused (by decide)))

/-- BW_UNASSIGN takes the seat away. -/
theorem has_unassign (he : e.request = .ioctl (.BW_UNASSIGN arg)) :
    Has g leader p { L with seat := told g p L.seat (e, (m.unassign e.call arg).1) }
      (m.unassign e.call arg).2 := by
  have hlead : ¬m.book.leader g = none := by
    rw [h.leader]
    exact Option.some_ne_none leader
  unfold Manager.unassign
  cases hread : arg.read with
  | none => exact h.same (told_of_none rfl)
  | some ioc =>
      simp only [hg, if_neg hlead]
      split_ifs with hpin
      · exact h.same (told_of_none (unassign_reply_refused (by decide)))
      · cases hL : (m.book.leaseOf g ((hw.cmg e.call.cpu).val, ioc.bb.toNat)).filter
            fun lease => (lease.seat e.call.cpu).isSome with
        | none => exact h.same (told_of_none (unassign_reply_refused (by decide)))
        | some L' =>
            unfold told
            simp only [he, unassign_reply_granted hheard, hg, true_and]
            exact h.grant (Option.filter_eq_some_iff.mp hL).1 e.call.cpu none

end Window

/-- **The step lemma.** A request that does not give the place up leaves the group its
lease, with the windows it is told. -/
theorem Has.serve (h : Has g leader p L m) (hkeep : ¬e.GivesUp g leader p) (hheard : e.Heard g)
    (hserve : serve l e m = (reply, m')) :
    Has g leader p { L with seat := told g p L.seat (e, reply) } m' := by
  by_cases hg : e.call.task.tgid = g
  · -- a request of the group
    obtain ⟨rfl, rfl⟩ : (A64fxHwb.serve l e m).1 = reply ∧ (A64fxHwb.serve l e m).2 = m' := by
      rw [hserve]
      exact ⟨rfl, rfl⟩
    unfold Event.GivesUp at hkeep
    unfold Event.Heard at hheard
    have hheard := hheard hg
    unfold A64fxHwb.serve
    cases he : e.request with
    | «open» =>
        refine Has.same ?_ (told_of_none rfl)
        exact ⟨h.leader, h.lease⟩
    | close =>
        rw [he] at hkeep
        exact (has_close h hg fun hpid => hkeep ⟨hg, hpid⟩).same (told_of_none rfl)
    | ioctl ioc =>
        rw [he] at hkeep hheard
        cases ioc with
        | GET_PE_INFO arg =>
            refine h.same (told_of_none ?_)
            dsimp only
            unfold peinfo_reply
            split_ifs
            · rfl
            · rfl
        | BB_ALLOC arg =>
            exact (has_alloc h hg arg).same (told_of_none (bw_ctl_alloc l e.call arg m))
        | BB_FREE arg =>
            have hnot : ∀ ioc, arg.read = some ioc → (ioc.cmg.toNat, ioc.bb.toNat) ≠ p :=
              fun ioc hread hp => hkeep ⟨hg, ioc, hread, hp⟩
            exact (has_free h hg hnot).same (told_of_none (bw_ctl_free e.call arg m))
        | BW_ASSIGN arg => exact has_assign h hg hheard he
        | BW_UNASSIGN arg => exact has_unassign h hg hheard he
        | RESET => exact absurd trivial hkeep
        | other => exact h.same (told_of_none rfl)
  · -- a request of another group leaves the share as it is
    have hreset : e.request ≠ .ioctl .RESET := by
      intro he
      unfold Event.GivesUp at hkeep
      rw [he] at hkeep
      exact hkeep trivial
    have hshare := serve_share_other (l := l) (m := m) hg hreset
    rw [hserve] at hshare
    refine Has.same ⟨?_, ?_⟩ (told_of_ne hg)
    · rw [← Book.leader_share, hshare, Book.leader_share]
      exact h.leader
    · rw [← Book.leaseOf_share, hshare, Book.leaseOf_share]
      exact h.lease

/-! ## Runs -/

variable {ys : List (Event hw × Reply)}

/-- **The run lemma.** -/
theorem Has.run (h : Has g leader p L m) (hrun : Trace (Serves l) m ys m')
    (hkeep : ∀ y ∈ ys, ¬y.1.GivesUp g leader p) (hheard : ∀ y ∈ ys, y.1.Heard g) :
    Has g leader p { L with seat := ys.foldl (told g p) L.seat } m' := by
  induction hrun generalizing L with
  | nil m => exact h
  | @cons m m₁ m' y ys hstep _ ih =>
      have hnext := h.serve (hkeep y List.mem_cons_self) (hheard y List.mem_cons_self) hstep.2
      exact ih hnext (fun z hz => hkeep z (List.mem_cons_of_mem _ hz))
        fun z hz => hheard z (List.mem_cons_of_mem _ hz)

/-- A blade as BB_ALLOC gives it: the CPUs of the mask, and no window. -/
def new_lease (g : ℕ) (mask : cpumask_t) : Lease ℕ ℕ ℕ where
  group := g
  members := { k | mask.getLsbD k = true }
  seat _ := none

/-- A BB_ALLOC that replies with a blade has leased it, if there was memory for it. -/
theorem has_of_alloc {arg : AllocArg} {mask : cpumask_t} {ioc : fujitsu_hwb_ioc_bb_ctl}
    (hmask : arg.pemask = some mask) (hmem : c.kmalloc_alloc = true)
    (hgot : (m.alloc l c arg).1.bb_ctl = some ioc)
    (hlead : (m.alloc l c arg).2.book.leader c.task.tgid = some leader) :
    Has c.task.tgid leader (ioc.cmg.toNat, ioc.bb.toNat) (new_lease c.task.tgid mask)
      (m.alloc l c arg).2 := by
  refine ⟨hlead, ?_⟩
  clear hlead
  unfold Manager.alloc at hgot ⊢
  cases hread : arg.read with
  | none =>
      rw [hread] at hgot
      cases hgot
  | some x =>
      simp only [hread, hmask] at hgot ⊢
      cases hasked : asked l c.online mask with
      | none =>
          rw [hasked] at hgot
          cases hgot
      | some cmg =>
          simp only [hasked] at hgot ⊢
          unfold Manager.allocate at hgot ⊢
          by_cases hnone : m.book.leader c.task.tgid = none ∧ c.kmalloc_taskmap = false
          · rw [if_pos hnone] at hgot
            cases hgot
          · rw [if_neg hnone] at hgot ⊢
            dsimp only at hgot ⊢
            cases hfree : lowestFree (fun b =>
                (m.book.enrol c.task.tgid c.task.pid).lease (cmg.val, b) ≠ none) MAX_BB_PER_CMG with
            | none =>
                rw [hfree] at hgot
                cases hgot
            | some b =>
                have hb : b < 6 := (lowestFree_eq_some.mp hfree).2.1
                have hcmg : cmg.val < 4 := cmg.isLt
                simp only [hfree, hmem, if_true] at hgot ⊢
                have hplace : (ioc.cmg.toNat, ioc.bb.toNat) = (cmg.val, b) := by
                  unfold alloc_reply at hgot
                  split_ifs at hgot
                  cases hgot
                  refine Prod.ext ?_ ?_
                  · change (BitVec.ofInt 8 (cmg.val : ℤ)).toNat = cmg.val
                    rw [BitVec.ofInt_natCast, BitVec.toNat_ofNat]
                    omega
                  · change (BitVec.ofNat 8 b).toNat = b
                    rw [BitVec.toNat_ofNat]
                    omega
                rw [hplace]
                exact Book.leaseOf_grant_self _ (cmg.val, b) (new_lease c.task.tgid mask)

/-! ## What is owed -/

/-- A thread of group `g`, bound to one CPU, asks about a window at place `p`. -/
structure Event.WindowAt (g : ℕ) (p : ℕ × ℕ) (arg : UserArg fujitsu_hwb_ioc_bw_ctl)
    (ioc : fujitsu_hwb_ioc_bw_ctl) (e : Event hw) : Prop where
  group : e.call.task.tgid = g
  read : arg.read = some ioc
  place : ((hw.cmg e.call.cpu).val, ioc.bb.toNat) = p
  bound : cpumask_weight e.call.cpus_mask ≤ 1

/-- What the driver in state `t` owes group `g`, led by `leader`, for its lease `L` of place
`p`. A BW_UNASSIGN succeeds when the CPU has a window. A BW_ASSIGN by a CPU of the lease
that has none finds the lowest that is not in use on that CPU, and fails if all four are.
The BB_FREE of the leader succeeds, and nobody has the place then. -/
structure Honours (l : Load hw) (g leader : ℕ) (p : ℕ × ℕ) (L : Lease ℕ ℕ ℕ) (t : Kernel) :
    Prop where
  unassign : ∀ e arg ioc, Cautious l e (t.manager l) → e.request = .ioctl (.BW_UNASSIGN arg) →
    e.WindowAt g p arg ioc → ∃ t', handle e t =
      .ok (unassign_reply arg ioc (if (L.seat e.call.cpu).isSome then 0 else -EINVAL), t')
  assign : ∀ e arg ioc, Cautious l e (t.manager l) → e.request = .ioctl (.BW_ASSIGN arg) →
    e.WindowAt g p arg ioc → ioc.window.toInt < 0 → e.call.cpu ∈ L.members →
    L.seat e.call.cpu = none → ∃ t', handle e t =
      .ok (assign_reply arg ioc
        (match lowestFree ((t.manager l).book.InUse e.call.cpu) MAX_BW_PER_CMG with
          | none => (-ENODEV, none)
          | some w => (0, some w)), t')
  free : ∀ e arg ioc, Cautious l e (t.manager l) → e.request = .ioctl (.BB_FREE arg) →
    e.call.task.tgid = g → e.call.task.pid = leader → arg.read = some ioc →
    (ioc.cmg.toNat, ioc.bb.toNat) = p → ∃ t', handle e t = .ok (free_reply arg ioc 0, t') ∧
      (t'.manager l).book.lease p = none

section Owed

variable {arg : UserArg fujitsu_hwb_ioc_bw_ctl} {ioc : fujitsu_hwb_ioc_bw_ctl}

theorem Has.unassign (h : Has g leader p L m) (hat : e.WindowAt g p arg ioc) :
    (m.unassign e.call arg).1 =
      unassign_reply arg ioc (if (L.seat e.call.cpu).isSome then 0 else -EINVAL) := by
  have hlead : ¬m.book.leader g = none := by
    rw [h.leader]
    exact Option.some_ne_none leader
  have hbound : ¬cpumask_weight e.call.cpus_mask > 1 := by
    have hle := hat.bound
    omega
  unfold Manager.unassign
  simp only [hat.read, hat.group, hat.place, if_neg hlead, if_neg hbound, h.lease]
  cases hseat : L.seat e.call.cpu with
  | none => simp only [Option.filter_some, hseat, Option.isSome_none, Bool.false_eq_true, if_false]
  | some w => simp only [Option.filter_some, hseat, Option.isSome_some, if_true]

theorem Has.assign (h : Has g leader p L m) (hat : e.WindowAt g p arg ioc)
    (hany : ioc.window.toInt < 0) (hmem : e.call.cpu ∈ L.members)
    (hseat : L.seat e.call.cpu = none) :
    (m.assign e.call arg).1 = assign_reply arg ioc
      (match lowestFree (m.book.InUse e.call.cpu) MAX_BW_PER_CMG with
        | none => (-ENODEV, none)
        | some w => (0, some w)) := by
  have hbound : ¬cpumask_weight e.call.cpus_mask > 1 := by
    have hle := hat.bound
    omega
  unfold Manager.assign Manager.window_for
  simp only [hat.read, hat.group, hat.place, if_neg hbound, h.lease, if_pos hmem, if_pos hany,
    hseat]
  cases lowestFree (m.book.InUse e.call.cpu) MAX_BW_PER_CMG with
  | none => rfl
  | some w => rfl

theorem Has.free (h : Has g leader p L m) {arg : UserArg fujitsu_hwb_ioc_bb_ctl}
    {ioc : fujitsu_hwb_ioc_bb_ctl} (hg : c.task.tgid = g) (hpid : c.task.pid = leader)
    (hread : arg.read = some ioc) (hp : (ioc.cmg.toNat, ioc.bb.toNat) = p) :
    (m.free c arg).1 = free_reply arg ioc 0 ∧ (m.free c arg).2.book.lease p = none := by
  have hlead : m.book.leader g = some c.task.pid := by
    rw [h.leader, hpid]
  unfold Manager.free
  simp only [hread, hg, hp, h.lease, if_pos hlead, Book.lease_retire, Book.lease_revoke, if_true,
    and_self]

end Owed

/-- A state whose manager has the lease honours it. -/
theorem honours_of_has {t : Kernel} (hstand : StandsFor l t m) (h : Has g leader p L m) :
    Honours l g leader p L t := by
  obtain rfl : t.manager l = m := hstand.1
  have hanswer : ∀ {e}, Cautious l e (t.manager l) → ∃ t',
      handle e t = .ok ((serve l e (t.manager l)).1, t') ∧
        t'.manager l = (serve l e (t.manager l)).2 := by
    intro e hcautious
    have hserves : Serves l (t.manager l) (e, (serve l e (t.manager l)).1)
        (serve l e (t.manager l)).2 := ⟨hcautious, rfl⟩
    obtain ⟨t', hstep, hnext⟩ := hstand.answer hserves
    exact ⟨t', hstep.2, hnext.1⟩
  refine ⟨?_, ?_, ?_⟩
  · intro e arg ioc hcautious he hat
    obtain ⟨t', hok, -⟩ := hanswer hcautious
    refine ⟨t', ?_⟩
    rw [hok, ← h.unassign hat]
    unfold serve
    rw [he]
  · intro e arg ioc hcautious he hat hany hmem hseat
    obtain ⟨t', hok, -⟩ := hanswer hcautious
    refine ⟨t', ?_⟩
    rw [hok, ← h.assign hat hany hmem hseat]
    unfold serve
    rw [he]
  · intro e arg ioc hcautious he hg hpid hread hp
    obtain ⟨t', hok, hnext⟩ := hanswer hcautious
    obtain ⟨hreply, hlease⟩ := h.free hg hpid hread hp
    have hserve : serve l e (t.manager l) = (t.manager l).free e.call arg := by
      unfold serve
      rw [he]
    rw [hserve] at hok hnext
    refine ⟨t', ?_, ?_⟩
    · rw [hok, hreply]
    · rw [hnext]
      exact hlease

/-- **A blade stays with its group.** In any run of cautious requests, from the BB_ALLOC
that gives a group a blade on, and until some request gives it up, the group has the blade
with the CPUs it asked for and the windows it was told, whatever others ask for in between,
and the driver honours that. -/
theorem blade_stays_with_its_group {s₀ s s₁ t : Kernel} {regs : hwb_regs} (hR : AllInvalid regs)
    (hload : Loaded l regs s₀) {xs : List (Event hw × Reply)} {y : Event hw × Reply}
    (hbefore : Trace (Handles l) s₀ xs s) (hstep : Handles l s y s₁)
    (hafter : Trace (Handles l) s₁ ys t) {arg : AllocArg} {mask : cpumask_t}
    {ioc : fujitsu_hwb_ioc_bb_ctl} (halloc : y.1.request = .ioctl (.BB_ALLOC arg))
    (hmask : arg.pemask = some mask) (hmem : y.1.call.kmalloc_alloc = true)
    (hgot : y.2.bb_ctl = some ioc) (hg : y.1.call.task.tgid = g)
    (hlead : (s₁.manager l).book.leader g = some leader)
    (hp : (ioc.cmg.toNat, ioc.bb.toNat) = p) (hkeep : ∀ z ∈ ys, ¬z.1.GivesUp g leader p)
    (hheard : ∀ z ∈ ys, z.1.Heard g) :
    (t.manager l).book.leaseOf g p =
        some { new_lease g mask with seat := ys.foldl (told g p) fun _ => none } ∧
      Honours l g leader p
        { new_lease g mask with seat := ys.foldl (told g p) fun _ => none } t := by
  obtain ⟨-, hstand⟩ := serves_of_handles (StandsFor.loaded hR hload) hbefore
  obtain ⟨⟨-, hserve⟩, hstand₁⟩ := hstand.next hstep
  obtain ⟨hrun, hend⟩ := serves_of_handles hstand₁ hafter
  have hserve' : (s.manager l).alloc l y.1.call arg = (y.2, s₁.manager l) := by
    unfold serve at hserve
    rw [halloc] at hserve
    exact hserve
  have hstart : Has g leader p (new_lease g mask) (s₁.manager l) := by
    have hgot' : ((s.manager l).alloc l y.1.call arg).1.bb_ctl = some ioc := by
      rw [hserve']
      exact hgot
    have hlead' : ((s.manager l).alloc l y.1.call arg).2.book.leader y.1.call.task.tgid =
        some leader := by
      rw [hserve', hg]
      exact hlead
    have hhas := has_of_alloc hmask hmem hgot' hlead'
    rw [hserve', hg, hp] at hhas
    exact hhas
  have hhas := hstart.run hrun hkeep hheard
  exact ⟨hhas.lease, honours_of_has hend hhas⟩

namespace Quad

/-- A process takes a blade of CPUs 0 and 1 and a window of CPU 1, on which another process
takes a window and gives it back. -/
def before : List (Event machine) := [«open» first 0, «open» other 2]

def take : Event machine := alloc first 0 0x3

def later : List (Event machine) :=
  [alloc other 2 0x6, assign other 1 1 (-1), assign first 1 0 (-1), unassign other 1 1,
    close other 2]

end Quad

theorem blade_stays_with_its_group_quad : ∃ ys t, ys.map Prod.fst = Quad.later ∧
    Trace (Handles Quad.load) (after Quad.load (Quad.before ++ [Quad.take])) ys t ∧
    Honours Quad.load 10 10 (0, 0)
      { new_lease 10 0x3 with seat := ys.foldl (told 10 (0, 0)) fun _ => none } t := by
  obtain ⟨s₀, hload, hrun⟩ := run_of_succeeds
    (show succeeds Quad.load (Quad.before ++ [Quad.take] ++ Quad.later) = true by decide +kernel)
  have hcautious : ∀ e ∈ Quad.before ++ [Quad.take] ++ Quad.later, ∀ m, Cautious Quad.load e m := by
    intro e he m
    have htest : ∀ e ∈ Quad.before ++ [Quad.take] ++ Quad.later, e.mild = true ∧
        e.call.online = 0xF ∧ Quad.load.online.getLsbD e.call.cpu = true := by decide
    obtain ⟨hmild, honline, hcpu⟩ := htest e he
    refine cautious_of_mild hmild hcpu (fun k hk => ?_) m
    rw [honline]
    exact hk
  have hinvalid : AllInvalid hwb_regs.cleared := by
    intro k w
    exact BitVec.getLsbD_zero
  -- the run, cut before the BB_ALLOC and after it
  unfold run at hrun
  rw [List.foldlM_append, Loops.bind_eq_ok] at hrun
  obtain ⟨s₁, hfirst, hlater⟩ := hrun
  obtain ⟨s, reply, hbefore, htake⟩ := run_snoc hfirst
  have hs : after Quad.load Quad.before = s := after_eq_of_run hload hbefore
  have hs₁ : after Quad.load (Quad.before ++ [Quad.take]) = s₁ := after_eq_of_run hload hfirst
  obtain ⟨xs, -, hxs⟩ := handles_of_run (fun e he => hcautious e (by simp [he])) hbefore
  obtain ⟨ys, hys, htrace⟩ := handles_of_run (fun e he => hcautious e (by simp [he])) hlater
  have hgot : reply.bb_ctl = some ⟨0, 0⟩ := by
    have hcheck : (handle Quad.take (after Quad.load Quad.before)).toOption.map
        (fun x => x.1.bb_ctl) = some (some ⟨0, 0⟩) := by decide +kernel
    rw [hs, htake] at hcheck
    exact Option.some_inj.mp hcheck
  have hlead : (s₁.manager Quad.load).book.leader 10 = some 10 := by
    have hcheck : (after Quad.load (Quad.before ++ [Quad.take])).dev.leader 10 = some 10 := by
      decide +kernel
    rw [hs₁] at hcheck
    exact hcheck
  have hevents : ∀ z ∈ ys, z.1 ∈ Quad.later := by
    intro z hz
    rw [← hys]
    exact List.mem_map_of_mem hz
  have hkeep : ∀ e ∈ Quad.later, ¬e.GivesUp 10 10 (0, 0) ∧ e.Heard 10 := by
    intro e he
    simp only [Quad.later, List.mem_cons, List.not_mem_nil, or_false] at he
    rcases he with rfl | rfl | rfl | rfl | rfl
    · exact ⟨fun h => h, fun h => trivial⟩
    · exact ⟨fun h => h, fun h => rfl⟩
    · exact ⟨fun h => h, fun h => rfl⟩
    · exact ⟨fun h => h, fun h => rfl⟩
    · exact ⟨fun h => absurd h.1 (by decide), fun h => trivial⟩
  have hstep : Handles Quad.load s (Quad.take, reply) s₁ :=
    ⟨hcautious Quad.take (by simp) (s.manager Quad.load), htake⟩
  have hstay := blade_stays_with_its_group hinvalid hload hxs hstep htrace rfl rfl rfl hgot rfl
    hlead rfl (fun z hz => (hkeep z.1 (hevents z hz)).1)
    fun z hz => (hkeep z.1 (hevents z hz)).2
  rw [hs₁]
  exact ⟨ys, _, hys, htrace, hstay.2⟩

end A64fxHwb
