/-
Which requests index out of range.

The bookkeeping keeps every stored number in range, so what is left is what the
user supplies, and three checks are missing. A BB_FREE uses its CMG number as an
index without looking at it, where a BB_ALLOC compares it first. A BW_ASSIGN tests
the bit of its window before it compares the number with the number of windows.
Neither BW_ASSIGN nor BW_UNASSIGN looks whether the caller's CPU has a core
mapping, which a CPU that came online after the load has not. Every other request
stays in range and returns.
-/
import A64fxHwb.Outcome
import A64fxHwb.Execution

set_option autoImplicit false

namespace A64fxHwb

open BitWord Relation Runs

variable {hw : Machine} {l : Load hw} {c : Call hw} {R : hwb_regs → Prop} {e : Event hw}
variable {s s' : Kernel}

/-! ## The requests that are not checked -/

/-- An access past an array or a word, or through a null pointer. -/
def Fault.OutOfRange : Fault → Prop
  | .null_pemap | .cmgs_index _ | .pe_map_index _ | .window_index _ | .win_blades_index _
  | .bit_number _ | .cpu_number _ => True
  | .stale_pointer | .lock_held | .unlock_not_held => False

/-- The event with every access past a word trapped. -/
def Event.trapped (e : Event hw) : Event hw := { e with call := { e.call with beyond := none } }

/-- No index and no bit number the event uses is out of range, and no core mapping
it reads is a null pointer. -/
def InBounds (e : Event hw) (s : Kernel) : Prop :=
  ∀ f, handle e.trapped s = .error f → ¬f.OutOfRange

/-- A BB_FREE with a CMG number past the array, of a group that has a mapping. -/
def FreesOutside (e : Event hw) (s : Kernel) : Prop :=
  ∃ arg ioc, e.request = .ioctl (.BB_FREE arg) ∧ arg.read = some ioc ∧
    MAX_NUM_CMG ≤ ioc.cmg.toNat ∧ get_taskmap s.dev e.call.task ≠ none

/-- A BW_ASSIGN with a window number past the word, by a thread that could be given
a window. -/
def ReadsBeyond (e : Event hw) (s : Kernel) : Prop :=
  ∃ arg ioc m a, e.request = .ioctl (.BW_ASSIGN arg) ∧ arg.read = some ioc ∧
    FindsBlade e.call ioc.bb.toNat s m a ∧ a.cpumask.getLsbD e.call.cpu = true ∧
    get_pemap s.dev (hw.cmg e.call.cpu) (hw.ppe e.call.cpu) ≠ none ∧ 64 ≤ ioc.window.toInt

/-- A BW_ASSIGN or BW_UNASSIGN that has found its blade, on a CPU without a core
mapping. An unassign does not ask whether the CPU is one of the blade's. -/
def NoEntry (e : Event hw) (s : Kernel) : Prop :=
  get_pemap s.dev (hw.cmg e.call.cpu) (hw.ppe e.call.cpu) = none ∧ ∃ arg ioc m a,
    arg.read = some ioc ∧ FindsBlade e.call ioc.bb.toNat s m a ∧
    ((e.request = .ioctl (.BW_ASSIGN arg) ∧ a.cpumask.getLsbD e.call.cpu = true) ∨
      e.request = .ioctl (.BW_UNASSIGN arg))

/-! ## What they end with -/

/-- A CPU has no core mapping exactly if it was not online during the load. -/
theorem get_pemap_eq_none (ht : Table l s.dev) (c : Call hw) :
    get_pemap s.dev (hw.cmg c.cpu) (hw.ppe c.cpu) = none ↔ l.online.getLsbD c.cpu = false := by
  constructor
  · intro h
    by_contra hon
    rw [get_pemap_online ht (Bool.not_eq_false _ ▸ hon)] at h
    exact Option.some_ne_none _ h
  · exact get_pemap_offline ht (c.online_present _ c.cpu_online)

theorem handle_freesOutside (hlock : s.locks = Locks.free) (h : FreesOutside e s) :
    ∃ i, handle e s = .error (.cmgs_index i) := by
  obtain ⟨arg, ioc, he, hread, hge, hget⟩ := h
  obtain ⟨m, hget⟩ := Option.ne_none_iff_exists'.mp hget
  have h4 : 4 ≤ ioc.cmg.toNat := hge
  refine ⟨ioc.cmg.toNat, ?_⟩
  have hptr : cmgs_ptr ioc.cmg.toNat = .error (.cmgs_index ioc.cmg.toNat) := by
    unfold cmgs_ptr
    rw [dif_neg]
    rintro ⟨-, hlt⟩
    have hlt' : (ioc.cmg.toNat : ℤ) < 4 := hlt
    omega
  rw [free_event_map he hread]
  unfold oss_a64fx_hwb_free oss_a64fx_hwb_free_blade
  rw [spin_lock_dev_free hlock, Loops.ok_bind]
  simp only [hget, hptr]
  rfl

/-- A call that returns in spite of such a number has found no mapping and changed nothing.
So the runs, which leave these numbers out, miss no state. -/
theorem reachable_of_handle (h : (driver l R).Reachable s) {reply : Reply}
    (hok : handle e s = .ok (reply, s')) : (driver l R).Reachable s' := by
  by_cases hrange : e.CmgInRange
  · exact .step h trivial ⟨hrange, reply, hok⟩
  · obtain ⟨-, hlock⟩ := reachable_inv h
    unfold Event.CmgInRange at hrange
    push Not at hrange
    obtain ⟨arg, ioc, he, hread, hge⟩ := hrange
    have hget : get_taskmap s.dev e.call.task = none := by
      by_contra hsome
      obtain ⟨i, herr⟩ := handle_freesOutside hlock ⟨arg, ioc, he, hread, hge, hsome⟩
      rw [herr] at hok
      cases hok
    have hfree : oss_a64fx_hwb_free e.call ioc.cmg.toNat ioc.bb.toNat s = .ok (-EINVAL, s) := by
      unfold oss_a64fx_hwb_free
      rw [spin_lock_dev_free hlock, Loops.ok_bind]
      simp only [hget, pure_bind, spin_unlock_dev_held, Loops.ok_bind, ← hlock]
      rfl
    rw [free_event_eq he hread hfree] at hok
    cases hok
    exact h

theorem handle_noEntry (ht : Table l s.dev) (hlock : s.locks = Locks.free) (h : NoEntry e s) :
    handle e s = .error .null_pemap := by
  obtain ⟨hpe, arg, ioc, m, a, hread, hfinds, ⟨he, hmem⟩ | he⟩ := h
  · have hoff := (get_pemap_eq_none ht e.call).mp hpe
    rw [assign_event_eq he hread, assign_no_entry ht hlock _ hfinds hmem hoff]
    rfl
  · have hoff := (get_pemap_eq_none ht e.call).mp hpe
    rw [unassign_event_eq he hread, unassign_no_entry ht hlock hfinds hoff]
    rfl

/-- The number of the window is trapped, if it is trapped at all. -/
theorem handle_readsBeyond (hi : Inv l s.dev) (hlock : s.locks = Locks.free)
    (h : ReadsBeyond e s) (hbeyond : e.call.beyond = none) :
    ∃ nr, handle e s = .error (.bit_number nr) := by
  obtain ⟨arg, ioc, m, a, he, hread, hfinds, hmem, hpe, hge⟩ := h
  have hon : l.online.getLsbD e.call.cpu = true := by
    by_contra hoff
    exact hpe ((get_pemap_eq_none hi.table e.call).mpr (Bool.not_eq_true _ ▸ hoff))
  have hout := assign_blade_outcome hi hlock ioc.window.toInt hfinds hmem hon
  rw [assign_event_eq he hread]
  generalize oss_a64fx_hwb_assign_blade e.call ioc.bb.toNat ioc.window.toInt s = result at hout
  cases hout with
  | taken w hch =>
      -- no window has such a number
      have hlt : w < 4 := hch.lt
      rcases hch.choice with heq | ⟨hneg, -⟩
      · omega
      · omega
  | failed err herr hno hwin =>
      rcases hwin with hlt | hne
      · omega
      · exact absurd hbeyond hne
  | trapped _ _ => exact ⟨_, rfl⟩

/-! ## Everything else returns -/

/-- GET_PE_INFO returns and changes nothing. -/
theorem get_peinfo_ok (c : Call hw) (arg : UserArg fujitsu_hwb_ioc_pe_info) (s : Kernel) :
    ∃ reply, oss_a64fx_hwb_get_peinfo_ioctl c arg s = .ok (reply, s) := by
  unfold oss_a64fx_hwb_get_peinfo_ioctl
  cases arg.read with
  | none => exact ⟨_, rfl⟩
  | some pe =>
      by_cases hwrite : arg.writable = true
      · exact ⟨_, if_pos hwrite⟩
      · exact ⟨_, if_neg hwrite⟩

theorem assign_event_ok (hi : Inv l s.dev) (hlock : s.locks = Locks.free)
    {arg : UserArg fujitsu_hwb_ioc_bw_ctl} (he : e.request = .ioctl (.BW_ASSIGN arg))
    (hentry : ¬NoEntry e s) (hbeyond : ReadsBeyond e s → e.call.beyond ≠ none) :
    ∃ r, handle e s = .ok r := by
  cases hread : arg.read with
  | none => exact ⟨_, handle_unread (Or.inl ⟨arg, he, hread⟩)⟩
  | some ioc =>
      rw [assign_event_eq he hread]
      by_cases hfinds : ∃ m a, FindsBlade e.call ioc.bb.toNat s m a
      swap
      · obtain ⟨err, -, hfail⟩ := assign_not_found hlock ioc.window.toInt
          fun m a h => hfinds ⟨m, a, h⟩
        rw [hfail]
        exact ⟨_, rfl⟩
      obtain ⟨m, a, hfinds⟩ := hfinds
      by_cases hmem : a.cpumask.getLsbD e.call.cpu = true
      swap
      · obtain ⟨err, -, hfail⟩ := assign_not_member hlock ioc.window.toInt hfinds
          (Bool.eq_false_iff.mpr hmem)
        rw [hfail]
        exact ⟨_, rfl⟩
      have hpe : get_pemap s.dev (hw.cmg e.call.cpu) (hw.ppe e.call.cpu) ≠ none :=
        fun hnone => hentry ⟨hnone, arg, ioc, m, a, hread, hfinds, Or.inl ⟨he, hmem⟩⟩
      have hon : l.online.getLsbD e.call.cpu = true := by
        by_contra hoff
        exact hpe ((get_pemap_eq_none hi.table e.call).mpr (Bool.not_eq_true _ ▸ hoff))
      have hout := assign_blade_outcome hi hlock ioc.window.toInt hfinds hmem hon
      generalize oss_a64fx_hwb_assign_blade e.call ioc.bb.toNat ioc.window.toInt s = result
        at hout ⊢
      cases hout with
      | taken w hch => exact ⟨_, rfl⟩
      | failed err herr hno hwin => exact ⟨_, rfl⟩
      | trapped hge hnone =>
          exact absurd hnone (hbeyond ⟨arg, ioc, m, a, he, hread, hfinds, hmem, hpe, hge⟩)

theorem unassign_event_ok (hi : Inv l s.dev) (hlock : s.locks = Locks.free)
    {arg : UserArg fujitsu_hwb_ioc_bw_ctl} (he : e.request = .ioctl (.BW_UNASSIGN arg))
    (hentry : ¬NoEntry e s) : ∃ r, handle e s = .ok r := by
  cases hread : arg.read with
  | none => exact ⟨_, handle_unread (Or.inr (Or.inl ⟨arg, he, hread⟩))⟩
  | some ioc =>
      rw [unassign_event_eq he hread]
      by_cases hfinds : ∃ m a, FindsBlade e.call ioc.bb.toNat s m a
      swap
      · obtain ⟨err, -, hfail⟩ := unassign_not_found hlock fun m a h => hfinds ⟨m, a, h⟩
        rw [hfail]
        exact ⟨_, rfl⟩
      obtain ⟨m, a, hfinds⟩ := hfinds
      have hon : l.online.getLsbD e.call.cpu = true := by
        by_contra hoff
        refine hentry ⟨?_, arg, ioc, m, a, hread, hfinds, Or.inr he⟩
        exact (get_pemap_eq_none hi.table e.call).mpr (Bool.not_eq_true _ ▸ hoff)
      rcases unassign_blade_outcome hi hlock hfinds hon with ⟨w, -, heq⟩ | ⟨-, err, -, heq⟩
      · rw [heq]
        exact ⟨_, rfl⟩
      · rw [heq]
        exact ⟨_, rfl⟩

theorem alloc_event_ok (hi : Inv l s.dev) (hlock : s.locks = Locks.free) {arg : AllocArg}
    (he : e.request = .ioctl (.BB_ALLOC arg)) : ∃ r, handle e s = .ok r := by
  by_cases hacc : ∃ ioc mask, arg.read = some ioc ∧ arg.pemask = some mask ∧
      0 ≤ check_cpumask e.call.online s.dev mask
  · obtain ⟨ioc, mask, hread, hmask, hcheck⟩ := hacc
    obtain ⟨cmg, hcmg, haccepted⟩ := accepted_of_check hi.table hcheck
    obtain ⟨ret, t, hok, -⟩ := allocate_path (fun _ => True) hi hlock trivial
      (fun _ _ => trivial) cmg haccepted
    rw [alloc_event_eq he hread hmask hcheck, hcmg, hok]
    exact ⟨_, rfl⟩
  · refine ⟨_, alloc_event_refused he fun ioc mask hread hmask => ?_⟩
    exact not_le.mp fun hcheck => hacc ⟨ioc, mask, hread, hmask, hcheck⟩

theorem free_event_ok (hi : Inv l s.dev) (hlock : s.locks = Locks.free)
    {arg : UserArg fujitsu_hwb_ioc_bb_ctl} (he : e.request = .ioctl (.BB_FREE arg))
    (houtside : ¬FreesOutside e s) : ∃ r, handle e s = .ok r := by
  cases hread : arg.read with
  | none => exact ⟨_, handle_unread (Or.inr (Or.inr ⟨arg, he, hread⟩))⟩
  | some ioc =>
      rw [free_event_map he hread]
      by_cases hlt : ioc.cmg.toNat < MAX_NUM_CMG
      swap
      · -- past the array, but there is no mapping to look for
        have hget : get_taskmap s.dev e.call.task = none := by
          by_contra hsome
          exact houtside ⟨arg, ioc, he, hread, not_lt.mp hlt, hsome⟩
        unfold oss_a64fx_hwb_free
        simp only [spin_lock_dev_free hlock, Loops.ok_bind, hget, pure_bind, spin_unlock_dev_held]
        exact ⟨_, rfl⟩
      obtain ⟨cmg, hcmg⟩ : ∃ cmg : Fin MAX_NUM_CMG, cmg.val = ioc.cmg.toNat :=
        ⟨⟨ioc.cmg.toNat, hlt⟩, rfl⟩
      rw [← hcmg]
      by_cases hex : ∃ a, Held s.dev e.call.task.tgid a ∧ a.cmg = cmg.val ∧
          (a.blade : ℤ) = ioc.bb.toNat
      · obtain ⟨a, ⟨m, hm, hg, ha⟩, hc, hb⟩ := hex
        rw [← hb]
        by_cases hpid : e.call.task.pid = m.task.pid
        · obtain ⟨t, hok, -⟩ := free_by_owner (fun _ => True) hi hlock hm hg ha hc hpid trivial
          rw [hok]
          exact ⟨_, rfl⟩
        · obtain ⟨t, hok, -⟩ := free_by_other (fun _ => True) hi hlock hm hg ha hc hpid
            (fun _ _ => trivial) fun _ _ => trivial
          rw [hok]
          exact ⟨_, rfl⟩
      · have hnone := free_missing (c := e.call) hi.table hlock cmg ioc.bb.toNat
          fun a ha hc hb => hex ⟨a, ha, hc, hb⟩
        rw [hnone]
        exact ⟨_, rfl⟩

/-- **Every event returns** but for those that are not checked. -/
theorem handle_ok (hi : Inv l s.dev) (hlock : s.locks = Locks.free)
    (houtside : ¬FreesOutside e s) (hentry : ¬NoEntry e s)
    (hbeyond : ReadsBeyond e s → e.call.beyond ≠ none) : ∃ r, handle e s = .ok r := by
  cases he : e.request with
  | «open» =>
      unfold handle oss_a64fx_hwb_open
      simp only [he, spin_lock_dev_free hlock, Loops.ok_bind, spin_unlock_dev_held]
      exact ⟨_, rfl⟩
  | close =>
      obtain ⟨t, hclose, -⟩ := close_spec (c := e.call) (fun _ => True) hi hlock trivial
        fun _ _ _ _ _ => Or.inr trivial
      unfold handle
      rw [he]
      exact ⟨_, hclose⟩
  | ioctl ioc =>
      cases ioc with
      | GET_PE_INFO arg =>
          obtain ⟨reply, hok⟩ := get_peinfo_ok e.call arg s
          unfold handle oss_a64fx_hwb_ioctl
          rw [he]
          exact ⟨_, hok⟩
      | BW_ASSIGN arg => exact assign_event_ok hi hlock he hentry hbeyond
      | BW_UNASSIGN arg => exact unassign_event_ok hi hlock he hentry
      | BB_ALLOC arg => exact alloc_event_ok hi hlock he
      | BB_FREE arg => exact free_event_ok hi hlock he houtside
      | RESET =>
          unfold handle oss_a64fx_hwb_ioctl
          rw [he]
          simp only [reset_eq hlock, Loops.ok_bind]
          exact ⟨_, rfl⟩
      | other =>
          unfold handle oss_a64fx_hwb_ioctl
          rw [he]
          exact ⟨_, rfl⟩

/-- The event returns exactly if it is none of them. -/
theorem handle_ok_iff (hi : Inv l s.dev) (hlock : s.locks = Locks.free) :
    (∃ r, handle e s = .ok r) ↔ ¬FreesOutside e s ∧ ¬NoEntry e s ∧
      (ReadsBeyond e s → e.call.beyond ≠ none) := by
  constructor
  · rintro ⟨r, hok⟩
    refine ⟨fun h => ?_, fun h => ?_, fun h hbeyond => ?_⟩
    · obtain ⟨i, herr⟩ := handle_freesOutside hlock h
      rw [herr] at hok
      cases hok
    · rw [handle_noEntry hi.table hlock h] at hok
      cases hok
    · obtain ⟨nr, herr⟩ := handle_readsBeyond hi hlock h hbeyond
      rw [herr] at hok
      cases hok
  · rintro ⟨houtside, hentry, hbeyond⟩
    exact handle_ok hi hlock houtside hentry hbeyond

/-! ## Trapping what is past the word -/

theorem findsBlade_trapped (e : Event hw) (blade : ℤ) (s : Kernel) (m : a64fx_task_mapping)
    (a : a64fx_task_allocation) :
    FindsBlade e.trapped.call blade s m a ↔ FindsBlade e.call blade s m a :=
  ⟨fun h => ⟨h.pinned, h.mapping, h.allocation⟩, fun h => ⟨h.pinned, h.mapping, h.allocation⟩⟩

theorem noEntry_trapped : NoEntry e.trapped s ↔ NoEntry e s := by
  unfold NoEntry
  simp only [findsBlade_trapped]
  exact Iff.rfl

theorem readsBeyond_trapped : ReadsBeyond e.trapped s ↔ ReadsBeyond e s := by
  unfold ReadsBeyond
  simp only [findsBlade_trapped]
  exact Iff.rfl

/-- **When user-supplied numbers stay in range**: whenever a BB_FREE names one of
the CMGs, a BW_ASSIGN a bit of the word, and the CPU of a BW_ASSIGN or BW_UNASSIGN
has a core mapping. -/
theorem in_bounds_iff (h : (driver l R).Reachable s) (e : Event hw) :
    InBounds e s ↔ ¬FreesOutside e s ∧ ¬ReadsBeyond e s ∧ ¬NoEntry e s := by
  obtain ⟨hi, hlock⟩ := reachable_inv h
  constructor
  · intro hin
    refine ⟨fun hf => ?_, fun hr => ?_, fun hn => ?_⟩
    · have hf' : FreesOutside e.trapped s := hf
      obtain ⟨i, herr⟩ := handle_freesOutside hlock hf'
      exact hin _ herr trivial
    · obtain ⟨nr, herr⟩ := handle_readsBeyond hi hlock (readsBeyond_trapped.mpr hr) rfl
      exact hin _ herr trivial
    · exact hin _ (handle_noEntry hi.table hlock (noEntry_trapped.mpr hn)) trivial
  · rintro ⟨houtside, hbeyond, hentry⟩ f herr
    have houtside' : ¬FreesOutside e.trapped s := houtside
    obtain ⟨r, hok⟩ := handle_ok hi hlock houtside' (fun hn => hentry (noEntry_trapped.mp hn))
      fun hr => absurd (readsBeyond_trapped.mp hr) hbeyond
    rw [hok] at herr
    cases herr

/-- A BB_FREE of a blade the group has, with a CMG the machine has, stays in range. -/
theorem in_bounds_quad_free : InBounds (Quad.free Quad.first 0 0)
    (after Quad.load [Quad.alloc Quad.first 0 0x3]) := by
  have hreach : (driver Quad.load fun _ => True).Reachable
      (after Quad.load [Quad.alloc Quad.first 0 0x3]) :=
    reachable_after trivial (by decide +kernel) (by decide)
  refine (in_bounds_iff hreach _).mpr ⟨?_, ?_, ?_⟩
  · rintro ⟨arg, ioc, he, hread, hge, -⟩
    cases he
    cases hread
    exact absurd hge (by decide)
  · rintro ⟨arg, ioc, m, a, he, -⟩
    cases he
  · rintro ⟨-, arg, ioc, m, a, -, -, ⟨he, -⟩ | he⟩
    · cases he
    · cases he

/-- CMG 200, from a thread that has a blade: the index is used as it is. -/
theorem free_indexes_outside :
    (driver Quad.load fun _ => True).Reachable (after Quad.load [Quad.alloc Quad.first 0 0x3]) ∧
      ¬InBounds ⟨Quad.call Quad.first 0, .ioctl (.BB_FREE ⟨some ⟨200, 0⟩, true⟩)⟩
        (after Quad.load [Quad.alloc Quad.first 0 0x3]) := by
  refine ⟨reachable_after trivial (by decide +kernel) (by decide), fun hin => ?_⟩
  refine hin (.cmgs_index 200) ?_ trivial
  have herr : (match handle (Event.trapped (⟨Quad.call Quad.first 0,
        .ioctl (.BB_FREE ⟨some ⟨200, 0⟩, true⟩)⟩ : Event Quad.machine))
      (after Quad.load [Quad.alloc Quad.first 0 0x3]) with
    | .ok _ => false
    | .error f => decide (f = .cmgs_index 200)) = true := by
    decide +kernel
  split at herr
  · exact absurd herr (by decide)
  · rename_i f hf
    rw [hf, of_decide_eq_true herr]

end A64fxHwb
