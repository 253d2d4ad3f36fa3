/-
Groups that keep to CMGs of their own do not notice the rest.

The bitmaps, the window masks and the count of open files are shared by everybody who has
the device open, and no request names the process it is for. All the same, when the blades
of some CMGs go to the groups of `G` only, and these get blades nowhere else, then every
reply to one of these groups is the reply it would get if nobody else used the device.

The argument is about the service: its book falls into the part of `G` and the rest
(`Manager.part`), a request of `G` is served in the part (`serve_own`), and any other
request leaves the part as it is (`serve_other`).
-/
import A64fxHwb.Conformance

set_option autoImplicit false

namespace A64fxHwb

open BitWord Leasing Runs

variable {hw : Machine} {l : Load hw} {c : Call hw} {e : Event hw} {m : Manager} {G C : Set ℕ}
  {n : ℤ}

/-! ## Who may have what -/

/-- The places on the CMGs of `C`. -/
def places (C : Set ℕ) : Set (ℕ × ℕ) := { p | p.1 ∈ C }

/-- A blade of a CMG of `C` is asked for by the groups of `G` only, and these ask for no
other. Nobody resets the device. -/
structure Event.Confined (l : Load hw) (G C : Set ℕ) (e : Event hw) : Prop where
  reset : e.request ≠ .ioctl .RESET
  alloc : ∀ arg mask cmg, e.request = .ioctl (.BB_ALLOC arg) → arg.pemask = some mask →
    Asks l e.call.online mask cmg → (e.call.task.tgid ∈ G ↔ cmg.val ∈ C)

/-- The lease of a place of `C` is one of a group of `G`, and its seats are taken by CPUs of
the CMG. -/
def Keeps (hw : Machine) (G C : Set ℕ) (p : ℕ × ℕ) (L : Lease ℕ ℕ ℕ) : Prop :=
  Book.Apart G (places C) p L ∧ ∀ k, L.seat k ≠ none → (hw.cmg k).val = p.1

/-- The part of a manager that is about `G` and `C`, with `n` files open. -/
noncomputable def Manager.part (m : Manager) (G C : Set ℕ) (n : ℤ) : Manager where
  book := m.book.within G (places C)
  files := n

theorem Keeps.seated {p : ℕ × ℕ} {L : Lease ℕ ℕ ℕ} (h : Keeps hw G C p L) {k : ℕ}
    (hk : (hw.cmg k).val = p.1) (o : Option ℕ) : Keeps hw G C p (L.seated k o) := by
  refine ⟨h.1, fun k' hk' => ?_⟩
  rw [Lease.seat_seated] at hk'
  by_cases heq : k' = k
  · rw [heq]
    exact hk
  · rw [if_neg heq] at hk'
    exact h.2 k' hk'

theorem Keeps.without {p : ℕ × ℕ} {L : Lease ℕ ℕ ℕ} (h : Keeps hw G C p L) (k : ℕ) :
    Keeps hw G C p (L.without k) := by
  refine ⟨h.1, fun k' hk' => ?_⟩
  rw [Lease.seat_without] at hk'
  by_cases heq : k' = k
  · rw [if_pos heq] at hk'
    exact absurd rfl hk'
  · rw [if_neg heq] at hk'
    exact h.2 k' hk'

/-- The leases of a group of `G` are on the CMGs of `C`, those of any other are not. -/
theorem place_of_leaseOf (h : m.book.Each (Keeps hw G C)) {g : ℕ} {p : ℕ × ℕ}
    {L : Lease ℕ ℕ ℕ} (hL : m.book.leaseOf g p = some L) :
    (g ∈ G ↔ p ∈ places C) ∧ Keeps hw G C p L := by
  obtain ⟨hlease, rfl⟩ := Book.leaseOf_eq_some.mp hL
  exact ⟨(h p L hlease).1, h p L hlease⟩

theorem leaseOf_part (h : m.book.Each (Keeps hw G C)) {g : ℕ} (hg : g ∈ G) (p : ℕ × ℕ) :
    (m.part G C n).book.leaseOf g p = m.book.leaseOf g p :=
  Book.leaseOf_within (fun p L hL => (h p L hL).1) hg p

theorem leader_part {g : ℕ} (hg : g ∈ G) :
    (m.part G C n).book.leader g = m.book.leader g :=
  Book.leader_within hg

/-- A CPU of a CMG of `C` has its windows in the part. -/
theorem inUse_part (h : m.book.Each (Keeps hw G C)) {k : ℕ} (hk : (hw.cmg k).val ∈ C) (w : ℕ) :
    (m.part G C n).book.InUse k w ↔ m.book.InUse k w := by
  apply Book.inUse_within
  intro p L hL hseat
  have hp : (hw.cmg k).val = p.1 := (h p L hL).2 k hseat
  change p.1 ∈ C
  rw [← hp]
  exact hk

/-- The window for a CPU of the part. -/
theorem window_for_part (h : m.book.Each (Keeps hw G C)) (hcpu : (hw.cmg c.cpu).val ∈ C)
    (window : ℤ) (L : Lease ℕ ℕ ℕ) :
    (m.part G C n).window_for c window L = m.window_for c window L := by
  have huse : (m.part G C n).book.InUse c.cpu = m.book.InUse c.cpu :=
    funext fun w => propext (inUse_part h hcpu w)
  unfold Manager.window_for
  rw [huse]

/-! ## A request of `G` is served in the part -/

section Own

variable (hg : c.task.tgid ∈ G)

include hg

theorem allocate_part {cmg : Fin MAX_NUM_CMG} (hcmg : cmg.val ∈ C) (mask : cpumask_t) :
    (m.part G C n).allocate c mask cmg =
      ((m.allocate c mask cmg).1, (m.allocate c mask cmg).2.part G C n) := by
  have henrol : (m.part G C n).book.enrol c.task.tgid c.task.pid =
      (m.book.enrol c.task.tgid c.task.pid).within G (places C) := (Book.within_enrol hg _).symm
  have hlease : ∀ b,
      ((m.book.enrol c.task.tgid c.task.pid).within G (places C)).lease (cmg.val, b) =
        (m.book.enrol c.task.tgid c.task.pid).lease (cmg.val, b) := by
    intro b
    apply Book.lease_within
    exact hcmg
  unfold Manager.allocate
  rw [leader_part hg, henrol]
  simp only [hlease]
  by_cases hmem : m.book.leader c.task.tgid = none ∧ c.kmalloc_taskmap = false
  · rw [if_pos hmem, if_pos hmem]
  · rw [if_neg hmem, if_neg hmem]
    cases lowestFree _ MAX_BB_PER_CMG with
    | none => rfl
    | some b =>
        have hplace : (cmg.val, b) ∈ places C := hcmg
        simp only [← Book.within_grant hplace]
        unfold Manager.part
        cases c.kmalloc_alloc with
        | false => rfl
        | true => rfl

/-- BB_ALLOC. -/
theorem alloc_part (arg : AllocArg) (hcmg : ∀ mask cmg, arg.pemask = some mask →
    Asks l c.online mask cmg → cmg.val ∈ C) :
    (m.part G C n).alloc l c arg = ((m.alloc l c arg).1, (m.alloc l c arg).2.part G C n) := by
  unfold Manager.alloc
  cases arg.read with
  | none => rfl
  | some ioc =>
      cases hmask : arg.pemask with
      | none => rfl
      | some mask =>
          simp only
          cases hasked : asked l c.online mask with
          | none => rfl
          | some cmg => simp only [allocate_part hg (hcmg mask cmg hmask (asks_of_asked hasked))]

/-- BB_FREE. -/
theorem free_part (h : m.book.Each (Keeps hw G C)) (arg : UserArg fujitsu_hwb_ioc_bb_ctl) :
    (m.part G C n).free c arg = ((m.free c arg).1, (m.free c arg).2.part G C n) := by
  unfold Manager.free
  cases arg.read with
  | none => rfl
  | some ioc =>
      simp only [leaseOf_part h hg, leader_part hg]
      cases hL : m.book.leaseOf c.task.tgid (ioc.cmg.toNat, ioc.bb.toNat) with
      | none => rfl
      | some L =>
          obtain ⟨hplace, hkeeps⟩ := place_of_leaseOf h hL
          have hp := hplace.mp hg
          have hrevoke := (Book.within_revoke (m := m.book) (S := G) hp).symm
          have hwithdraw := (Book.within_withdraw (m := m.book) (S := G) (L := L) hp c.cpu).symm
          have hretire : ∀ B : Book ℕ ℕ (ℕ × ℕ) ℕ ℕ, B.Each (Keeps hw G C) →
              (B.within G (places C)).retire c.task.tgid =
                (B.retire c.task.tgid).within G (places C) :=
            fun B hB => (Book.within_retire (fun p L hL => (hB p L hL).1) hg).symm
          unfold Manager.part
          simp only [hrevoke, hwithdraw]
          split_ifs
          · rw [hretire _ (h.revoke _)]
          · rw [hretire _ (h.withdraw (hkeeps.without c.cpu))]

/-- BW_ASSIGN. -/
theorem assign_part (h : m.book.Each (Keeps hw G C)) (arg : UserArg fujitsu_hwb_ioc_bw_ctl) :
    (m.part G C n).assign c arg = ((m.assign c arg).1, (m.assign c arg).2.part G C n) := by
  unfold Manager.assign
  cases arg.read with
  | none => rfl
  | some ioc =>
      simp only [leaseOf_part h hg]
      by_cases hpinned : cpumask_weight c.cpus_mask > 1
      · rw [if_pos hpinned, if_pos hpinned]
      · rw [if_neg hpinned, if_neg hpinned]
        cases hL : m.book.leaseOf c.task.tgid ((hw.cmg c.cpu).val, ioc.bb.toNat) with
        | none => rfl
        | some L =>
            have hp := (place_of_leaseOf h hL).1.mp hg
            simp only [window_for_part h hp]
            by_cases hmem : c.cpu ∈ L.members
            · rw [if_pos hmem, if_pos hmem]
              cases m.window_for c ioc.window.toInt L with
              | error err => rfl
              | ok w =>
                  simp only [Manager.part, Book.within_grant hp]
            · rw [if_neg hmem, if_neg hmem]

/-- BW_UNASSIGN. -/
theorem unassign_part (h : m.book.Each (Keeps hw G C)) (arg : UserArg fujitsu_hwb_ioc_bw_ctl) :
    (m.part G C n).unassign c arg =
      ((m.unassign c arg).1, (m.unassign c arg).2.part G C n) := by
  unfold Manager.unassign
  cases arg.read with
  | none => rfl
  | some ioc =>
      simp only [leaseOf_part h hg, leader_part hg]
      by_cases hpinned : cpumask_weight c.cpus_mask > 1
      · rw [if_pos hpinned, if_pos hpinned]
      · rw [if_neg hpinned, if_neg hpinned]
        by_cases hlead : m.book.leader c.task.tgid = none
        · rw [if_pos hlead, if_pos hlead]
        · rw [if_neg hlead, if_neg hlead]
          cases hL : (m.book.leaseOf c.task.tgid ((hw.cmg c.cpu).val, ioc.bb.toNat)).filter
              fun lease => (lease.seat c.cpu).isSome with
          | none => rfl
          | some L =>
              have hL' := (Option.filter_eq_some_iff.mp hL).1
              have hp := (place_of_leaseOf h hL').1.mp hg
              simp only [Manager.part, Book.within_grant hp]

/-- A close, with a file open in the part. -/
theorem close_part (hn : 0 < n) (hfiles : 0 < m.files) :
    (m.part G C n).close c = (m.close c).part G C (n - 1) := by
  have hfiles' : (m.part G C n).files > 0 := hn
  have hdissolve := (Book.within_dissolve (m := m.book) (Q := places C) hg).symm
  unfold Manager.close
  rw [if_pos hfiles', if_pos hfiles, leader_part hg]
  split_ifs
  · unfold Manager.part
    rw [hdissolve]
  · rfl

end Own

/-! ## What a request does to the book -/

section Acts

variable (c m)

theorem allocate_acts {cmg : Fin MAX_NUM_CMG} (hcmg : c.task.tgid ∈ G ↔ cmg.val ∈ C)
    (mask : cpumask_t) : Relation.ReflTransGen (Book.Act (Keeps hw G C) c.task.tgid) m.book
      (m.allocate c mask cmg).2.book := by
  have henrol : Relation.ReflTransGen (Book.Act (Keeps hw G C) c.task.tgid) m.book
      (m.book.enrol c.task.tgid c.task.pid) := .single (.enrol m.book c.task.pid)
  unfold Manager.allocate
  split_ifs with hmem halloc
  · exact .refl
  · dsimp only
    cases lowestFree _ MAX_BB_PER_CMG with
    | none => exact henrol
    | some b => exact henrol.tail (.grant _ ⟨hcmg, fun k hk => absurd rfl hk⟩ rfl)
  · dsimp only
    cases lowestFree _ MAX_BB_PER_CMG with
    | none => exact henrol
    | some b => exact henrol

theorem alloc_acts (arg : AllocArg) (hcmg : ∀ mask cmg, arg.pemask = some mask →
    Asks l c.online mask cmg → (c.task.tgid ∈ G ↔ cmg.val ∈ C)) :
    Relation.ReflTransGen (Book.Act (Keeps hw G C) c.task.tgid) m.book
      (m.alloc l c arg).2.book := by
  unfold Manager.alloc
  cases arg.read with
  | none => exact .refl
  | some ioc =>
      cases hmask : arg.pemask with
      | none => exact .refl
      | some mask =>
          simp only
          cases hasked : asked l c.online mask with
          | none => exact .refl
          | some cmg => exact allocate_acts c m (hcmg mask cmg hmask (asks_of_asked hasked)) mask

variable {m}

theorem free_acts (h : m.book.Each (Keeps hw G C)) (arg : UserArg fujitsu_hwb_ioc_bb_ctl) :
    Relation.ReflTransGen (Book.Act (Keeps hw G C) c.task.tgid) m.book (m.free c arg).2.book := by
  unfold Manager.free
  cases arg.read with
  | none => exact .refl
  | some ioc =>
      simp only
      cases hL : m.book.leaseOf c.task.tgid (ioc.cmg.toNat, ioc.bb.toNat) with
      | none => exact .refl
      | some L =>
          have hkeeps := (place_of_leaseOf h hL).2
          have hgroup := (Book.leaseOf_eq_some.mp hL).2
          simp only
          split_ifs
          · exact .tail (.single (.revoke m.book hkeeps hgroup)) (.retire _)
          · exact .tail (Book.acts_withdraw m.book (hkeeps.without c.cpu) hgroup) (.retire _)

theorem assign_acts (h : m.book.Each (Keeps hw G C)) (arg : UserArg fujitsu_hwb_ioc_bw_ctl) :
    Relation.ReflTransGen (Book.Act (Keeps hw G C) c.task.tgid) m.book
      (m.assign c arg).2.book := by
  unfold Manager.assign
  cases arg.read with
  | none => exact .refl
  | some ioc =>
      simp only
      split_ifs
      · exact .refl
      · cases hL : m.book.leaseOf c.task.tgid ((hw.cmg c.cpu).val, ioc.bb.toNat) with
        | none => exact .refl
        | some L =>
            have hkeeps := (place_of_leaseOf h hL).2
            have hgroup := (Book.leaseOf_eq_some.mp hL).2
            simp only
            split_ifs
            · cases m.window_for c ioc.window.toInt L with
              | error err => exact .refl
              | ok w => exact .single (.grant m.book (hkeeps.seated rfl (some w)) hgroup)
            · exact .refl

theorem unassign_acts (h : m.book.Each (Keeps hw G C)) (arg : UserArg fujitsu_hwb_ioc_bw_ctl) :
    Relation.ReflTransGen (Book.Act (Keeps hw G C) c.task.tgid) m.book
      (m.unassign c arg).2.book := by
  unfold Manager.unassign
  cases arg.read with
  | none => exact .refl
  | some ioc =>
      simp only
      split_ifs
      · exact .refl
      · exact .refl
      · cases hL : (m.book.leaseOf c.task.tgid ((hw.cmg c.cpu).val, ioc.bb.toNat)).filter
            fun lease => (lease.seat c.cpu).isSome with
        | none => exact .refl
        | some L =>
            have hL' := (Option.filter_eq_some_iff.mp hL).1
            have hkeeps := (place_of_leaseOf h hL').2
            have hgroup := (Book.leaseOf_eq_some.mp hL').2
            exact .single (.grant m.book (hkeeps.seated rfl none) hgroup)

variable (m) in
theorem close_acts : Relation.ReflTransGen (Book.Act (Keeps hw G C) c.task.tgid) m.book
    (m.close c).book := by
  unfold Manager.close
  split_ifs
  · exact .single (.dissolve m.book)
  · exact .refl
  · exact .refl

end Acts

/-- A request does to the book what its group can do. -/
theorem serve_acts (he : e.Confined l G C) (h : m.book.Each (Keeps hw G C)) :
    Relation.ReflTransGen (Book.Act (Keeps hw G C) e.call.task.tgid) m.book
      (serve l e m).2.book := by
  have halloc := he.alloc
  have hreset := he.reset
  unfold serve
  cases hr : e.request with
  | «open» => exact .refl
  | close => exact close_acts e.call m
  | ioctl ioc =>
      cases ioc with
      | GET_PE_INFO arg => exact .refl
      | BB_ALLOC arg => exact alloc_acts e.call m arg fun mask cmg => halloc arg mask cmg hr
      | BB_FREE arg => exact free_acts e.call h arg
      | BW_ASSIGN arg => exact assign_acts e.call h arg
      | BW_UNASSIGN arg => exact unassign_acts e.call h arg
      | RESET => exact absurd hr hreset
      | other => exact .refl

/-! ## Files -/

/-- What a request adds to the number of open files. -/
def Request.files : Request → ℤ
  | .open => 1
  | .close => -1
  | .ioctl _ => 0

/-- The calls in `P` close no more files than such calls have opened; `n` of them are
open. -/
def FilesMatched (P : Event hw → Prop) [DecidablePred P] : ℤ → List (Event hw) → Prop
  | _, [] => True
  | n, e :: es =>
    if P e then 0 ≤ n + e.request.files ∧ FilesMatched P (n + e.request.files) es
    else FilesMatched P n es

instance decidableFilesMatched (P : Event hw → Prop) [DecidablePred P] :
    (n : ℤ) → (es : List (Event hw)) → Decidable (FilesMatched P n es)
  | _, [] => .isTrue trivial
  | n, e :: es =>
    have := decidableFilesMatched P (n + e.request.files) es
    have := decidableFilesMatched P n es
    inferInstanceAs (Decidable (if P e then 0 ≤ n + e.request.files ∧
      FilesMatched P (n + e.request.files) es else FilesMatched P n es))

/-- A close that is matched closes a file. -/
theorem pos_of_close (hn : 0 ≤ n + e.request.files) (hr : e.request = .close) : 0 < n := by
  rw [hr, Request.files] at hn
  omega

theorem serve_files (hreset : e.request ≠ .ioctl .RESET)
    (hclose : e.request = .close → 0 < m.files) :
    (serve l e m).2.files = m.files + e.request.files := by
  have hallocate : ∀ mask cmg, (m.allocate e.call mask cmg).2.files = m.files := by
    intro mask cmg
    unfold Manager.allocate
    split_ifs
    · rfl
    · dsimp only
      split
      · rfl
      · rfl
    · dsimp only
      split
      · rfl
      · rfl
  unfold serve
  cases hr : e.request with
  | «open» => rfl
  | close =>
      have hopen : m.files > 0 := hclose hr
      unfold Manager.close
      rw [if_pos hopen]
      rfl
  | ioctl ioc =>
      rw [Request.files, add_zero]
      cases ioc with
      | GET_PE_INFO arg => rfl
      | BB_ALLOC arg =>
          simp only [Manager.alloc]
          repeat' split
          all_goals first | rfl | exact hallocate _ _
      | BB_FREE arg =>
          simp only [Manager.free]
          repeat' split
          all_goals rfl
      | BW_ASSIGN arg =>
          simp only [Manager.assign]
          repeat' split
          all_goals rfl
      | BW_UNASSIGN arg =>
          simp only [Manager.unassign]
          repeat' split
          all_goals rfl
      | RESET => exact absurd hr hreset
      | other => rfl

/-! ## One step -/

/-- **A request of `G` is served in the part** as it is in the whole. -/
theorem serve_own (hg : e.call.task.tgid ∈ G) (he : e.Confined l G C)
    (h : m.book.Each (Keeps hw G C)) (hn : e.request = .close → 0 < n ∧ 0 < m.files) :
    serve l e (m.part G C n) =
      ((serve l e m).1, (serve l e m).2.part G C (n + e.request.files)) := by
  have halloc := he.alloc
  have hreset := he.reset
  unfold serve
  cases hr : e.request with
  | «open» => rfl
  | close =>
      obtain ⟨hn, hfiles⟩ := hn hr
      simp only [close_part hg hn hfiles]
      rfl
  | ioctl ioc =>
      rw [Request.files, add_zero]
      cases ioc with
      | GET_PE_INFO arg => rfl
      | BB_ALLOC arg =>
          exact alloc_part hg arg fun mask cmg hmask hask =>
            (halloc arg mask cmg hr hmask hask).mp hg
      | BB_FREE arg => exact free_part hg h arg
      | BW_ASSIGN arg => exact assign_part hg h arg
      | BW_UNASSIGN arg => exact unassign_part hg h arg
      | RESET => exact absurd hr hreset
      | other => rfl

/-- **Any other request** leaves the part as it is. -/
theorem serve_other (hg : e.call.task.tgid ∉ G) (he : e.Confined l G C)
    (h : m.book.Each (Keeps hw G C)) : (serve l e m).2.part G C n = m.part G C n := by
  have hbook := Book.acts_within (fun p L hL => hL.1) hg h (serve_acts he h)
  unfold Manager.part
  rw [hbook]

/-- A request of `G` is as cautious in the part as in the whole. -/
theorem Cautious.part (hg : e.call.task.tgid ∈ G) (h : m.book.Each (Keeps hw G C))
    (hcautious : Cautious l e m) : Cautious l e (m.part G C n) where
  cpu := hcautious.cpu
  online := hcautious.online
  cmg := hcautious.cmg
  window := hcautious.window
  assign arg ioc L he hread hL := by
    rw [leaseOf_part h hg] at hL
    have hp : (hw.cmg e.call.cpu).val ∈ C := (place_of_leaseOf h hL).1.mp hg
    rw [window_for_part h hp]
    exact hcautious.assign arg ioc L he hread hL
  free arg ioc L w he hread hL hlead := by
    rw [leaseOf_part h hg] at hL
    rw [leader_part hg] at hlead
    exact hcautious.free arg ioc L w he hread hL hlead

/-! ## Runs -/

variable [DecidablePred (· ∈ G)]

/-- A run that has come to `m`, with `ys` still to come, and one of the calls of `G` alone
that has come to `m₀`. -/
structure Alongside (l : Load hw) (G C : Set ℕ) [DecidablePred (· ∈ G)]
    (ys : List (Event hw × Reply)) (m m₀ : Manager) : Prop where
  keeps : m.book.Each (Keeps hw G C)
  confined : ∀ y ∈ ys, y.1.Confined l G C
  part : m₀ = m.part G C m₀.files
  nonneg : 0 ≤ m₀.files
  le_files : m₀.files ≤ m.files
  own : FilesMatched (fun e => e.call.task.tgid ∈ G) m₀.files (ys.map Prod.fst)
  other : FilesMatched (fun e => e.call.task.tgid ∉ G) (m.files - m₀.files) (ys.map Prod.fst)

variable {y : Event hw × Reply} {ys : List (Event hw × Reply)} {m' m₀ : Manager}

theorem Alongside.own_step (h : Alongside l G C (y :: ys) m m₀)
    (hg : y.1.call.task.tgid ∈ G) (hstep : Serves l m y m') :
    ∃ m₁, Serves l m₀ y m₁ ∧ Alongside l G C ys m' m₁ := by
  obtain ⟨hcautious, hserve⟩ := hstep
  have hconf := h.confined y List.mem_cons_self
  have hown := h.own
  rw [List.map_cons, FilesMatched, if_pos hg] at hown
  have hother := h.other
  rw [List.map_cons, FilesMatched, if_neg (not_not_intro hg)] at hother
  have hclose : y.1.request = .close → 0 < m.files := fun hr =>
    lt_of_lt_of_le (pos_of_close hown.1 hr) h.le_files
  have hfiles : m'.files = m.files + y.1.request.files := by
    rw [← serve_files hconf.reset hclose, hserve]
  have hpart := serve_own (n := m₀.files) hg hconf h.keeps fun hr =>
    ⟨pos_of_close hown.1 hr, hclose hr⟩
  rw [hserve, ← h.part] at hpart
  have hkeeps := Book.acts_each h.keeps (serve_acts hconf h.keeps)
  rw [hserve] at hkeeps
  refine ⟨m'.part G C (m₀.files + y.1.request.files), ⟨?_, hpart⟩, hkeeps,
    fun z hz => h.confined z (List.mem_cons_of_mem _ hz), rfl, hown.1, ?_, hown.2, ?_⟩
  · rw [h.part]
    exact hcautious.part hg h.keeps
  · have hle := h.le_files
    change m₀.files + y.1.request.files ≤ m'.files
    omega
  · change FilesMatched _ (m'.files - (m₀.files + y.1.request.files)) _
    rw [hfiles, add_sub_add_right_eq_sub]
    exact hother

theorem Alongside.other_step (h : Alongside l G C (y :: ys) m m₀)
    (hg : y.1.call.task.tgid ∉ G) (hstep : Serves l m y m') : Alongside l G C ys m' m₀ := by
  obtain ⟨-, hserve⟩ := hstep
  have hconf := h.confined y List.mem_cons_self
  have hown := h.own
  rw [List.map_cons, FilesMatched, if_neg hg] at hown
  have hother := h.other
  rw [List.map_cons, FilesMatched, if_pos hg] at hother
  have hnonneg := h.nonneg
  have hle := h.le_files
  have hclose : y.1.request = .close → 0 < m.files := by
    intro hr
    have hpos := pos_of_close hother.1 hr
    omega
  have hfiles : m'.files = m.files + y.1.request.files := by
    rw [← serve_files hconf.reset hclose, hserve]
  have hpart := serve_other (n := m₀.files) hg hconf h.keeps
  rw [hserve, ← h.part] at hpart
  have hkeeps := Book.acts_each h.keeps (serve_acts hconf h.keeps)
  rw [hserve] at hkeeps
  have hrest := hother.1
  refine ⟨hkeeps, fun z hz => h.confined z (List.mem_cons_of_mem _ hz), hpart.symm, hnonneg,
    by omega, hown, ?_⟩
  rw [hfiles, show m.files + y.1.request.files - m₀.files =
    m.files - m₀.files + y.1.request.files by omega]
  exact hother.2

/-- **Groups that keep to their own CMGs do not notice the rest.** Take out of a run what
the groups outside of `G` ask for: the driver can make that run too, with the same replies,
and what the groups of `G` lead and hold at the end is the same. -/
theorem confined_groups_run_alone {s t : Kernel} {regs : hwb_regs} (hR : AllInvalid regs)
    (hload : Loaded l regs s) (h : Trace (Handles l) s ys t)
    (hconf : ∀ y ∈ ys, y.1.Confined l G C)
    (hown : FilesMatched (fun e => e.call.task.tgid ∈ G) 0 (ys.map Prod.fst))
    (hother : FilesMatched (fun e => e.call.task.tgid ∉ G) 0 (ys.map Prod.fst)) :
    ∃ t', Trace (Handles l) s (ys.filter fun y => y.1.call.task.tgid ∈ G) t' ∧
      ∀ g ∈ G, (t'.manager l).book.leader g = (t.manager l).book.leader g ∧
        ∀ p, (t'.manager l).book.leaseOf g p = (t.manager l).book.leaseOf g p := by
  have hstart := StandsFor.loaded hR hload
  obtain ⟨hserves, -⟩ := serves_of_handles hstart h
  have halongside : Alongside l G C ys { book := Book.empty, files := 0 }
      { book := Book.empty, files := 0 } := by
    refine ⟨Book.Each.empty, hconf, ?_, le_refl 0, le_refl 0, hown, hother⟩
    unfold Manager.part
    rw [Book.within_empty]
  obtain ⟨m₀, halone, hend⟩ := hserves.erase
    (P := fun y : Event hw × Reply => y.1.call.task.tgid ∈ G) (R := Alongside l G C) halongside
    (fun y ys m m' m₀ h hg hstep => h.own_step hg hstep)
    (fun y ys m m' m₀ h hg hstep => h.other_step hg hstep)
  obtain ⟨t', hrun, hstand⟩ := handles_of_serves hstart halone
  refine ⟨t', hrun, fun g hg => ?_⟩
  rw [hstand.1, hend.part]
  exact ⟨leader_part hg, leaseOf_part hend.keeps hg⟩

/-! ## Two processes on two CMGs -/

/-- `Event.Confined` for one group and one CMG, as a test. -/
def Event.confined (d : a64fx_hwb_device) (g cmg : ℕ) (e : Event hw) : Bool :=
  match e.request with
  | .ioctl .RESET => false
  | .ioctl (.BB_ALLOC arg) => arg.pemask.all fun mask =>
    decide (check_cpumask e.call.online d mask < 0) ||
      decide (e.call.task.tgid = g) == decide (check_cpumask e.call.online d mask = cmg)
  | _ => true

theorem confined_of_test {d : a64fx_hwb_device} (ht : Table l d) {g i : ℕ}
    (htest : e.confined d g i = true) : e.Confined l {g} {i} := by
  constructor
  · intro hr
    unfold Event.confined at htest
    simp [hr] at htest
  · intro arg mask cmg hr hmask hask
    have hcheck := (asks_iff ht e.call.online mask cmg).mp hask
    unfold Event.confined at htest
    simp only [hr, hmask, Option.all_some, hcheck, Bool.or_eq_true, decide_eq_true_eq,
      beq_iff_eq, decide_eq_decide, Int.natCast_inj] at htest
    exact htest.resolve_left (by omega)

namespace Late

/-- One process on CMG 0 and another on CMG 1, by turns. -/
def by_turns : List (Event machine) :=
  [⟨call Quad.first 0, .open⟩, ⟨call Quad.other 2, .open⟩, alloc Quad.other 2 0xC,
    alloc Quad.first 0 0x3, assign Quad.other 3, assign Quad.first 0, assign Quad.first 1,
    ⟨call Quad.other 2, .close⟩, ⟨call Quad.first 0, .close⟩]

end Late

theorem confined_groups_run_alone_by_turns : ∃ ys t t', ys.map Prod.fst = Late.by_turns ∧
    Trace (Handles Late.load_all) (after Late.load_all []) ys t ∧
    Trace (Handles Late.load_all) (after Late.load_all [])
      (ys.filter fun y => y.1.call.task.tgid ∈ ({10} : Set ℕ)) t' := by
  obtain ⟨s, hload, hrun⟩ :=
    run_of_succeeds (show succeeds Late.load_all Late.by_turns = true by decide +kernel)
  have htest : ∀ e ∈ Late.by_turns, e.mild = true ∧ e.call.online = 0xF ∧
      Late.load_all.online.getLsbD e.call.cpu = true := by decide
  have hcautious : ∀ e ∈ Late.by_turns, ∀ m, Cautious Late.load_all e m := by
    intro e he m
    obtain ⟨hmild, honline, hcpu⟩ := htest e he
    refine cautious_of_mild hmild hcpu (fun k hk => ?_) m
    rw [honline]
    exact hk
  obtain ⟨ys, hys, htrace⟩ := handles_of_run hcautious hrun
  have hstart : after Late.load_all [] = s := after_eq_of_run hload rfl
  have hinvalid : AllInvalid hwb_regs.cleared := by
    intro k w
    exact BitVec.getLsbD_zero
  have hconfined : ∀ e ∈ Late.by_turns, e.Confined Late.load_all {10} {0} := by
    have hcheck : ∀ e ∈ Late.by_turns, e.confined (after Late.load_all []).dev 10 0 = true := by
      decide +kernel
    rw [hstart, hload.spec.1] at hcheck
    exact fun e he => confined_of_test (loaded_table hload.packed) (hcheck e he)
  have hevents : ∀ y ∈ ys, y.1 ∈ Late.by_turns := by
    intro y hy
    rw [← hys]
    exact List.mem_map_of_mem hy
  obtain ⟨t', halone, -⟩ := confined_groups_run_alone hinvalid hload htrace
    (fun y hy => hconfined y.1 (hevents y hy)) (by rw [hys]; decide) (by rw [hys]; decide)
  rw [hstart]
  exact ⟨ys, _, t', hys, htrace, halone⟩

end A64fxHwb
