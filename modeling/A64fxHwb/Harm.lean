/-
What a request does to the blades that are named, whatever the core table holds.

`Harmless` is what should hold of the live allocations: no CMG and blade is named by
two, each names the CMG its CPUs lie on, and its blade is marked there. A request adds
one allocation, for the blade it takes, or takes some away. The second keeps `Harmless`;
the first keeps it exactly if the CMG carries its own number and the mask lies on it.
-/
import A64fxHwb.Live
import A64fxHwb.Failure

set_option autoImplicit false

namespace A64fxHwb

open BitWord Runs

variable {hw : Machine} {e : Event hw} {s s' : Kernel} {d d' : a64fx_hwb_device}
variable {i : Fin MAX_NUM_CMG} {a : a64fx_task_allocation}

/-! ## Harm -/

/-- **No harm is done.** No CMG and blade is named by two live allocations, and each
names the CMG its CPUs lie on, where its blade is marked. -/
structure Harmless (hw : Machine) (d : a64fx_hwb_device) : Prop where
  distinct : d.places.Nodup
  marked : ∀ a ∈ d.allocs, ∃ i : Fin MAX_NUM_CMG,
    (∀ k, a.cpumask.getLsbD k = true → hw.cmg k = i) ∧ a.cmg = i.val ∧ d.bb i a.blade = true

theorem Harmless.orderly (h : Harmless hw d) : Orderly hw d := by
  refine ⟨h.distinct, fun a ha => ?_⟩
  obtain ⟨i, hcpus, hcmg, -⟩ := h.marked a ha
  exact ⟨i, hcmg, hcpus⟩

/-- A blade that is named is marked. -/
theorem Harmless.bb_of_place (h : Harmless hw d) {b : ℕ} (hp : (i.val, b) ∈ d.places) :
    d.bb i b = true := by
  obtain ⟨a, ha, hplace⟩ := List.mem_map.mp hp
  obtain ⟨i', -, hcmg, hbit⟩ := h.marked a ha
  have hc : a.cmg = i.val := congrArg Prod.fst hplace
  have hb : a.blade = b := congrArg Prod.snd hplace
  have hi : i' = i := Fin.ext (hcmg.symm.trans hc)
  rw [hi, hb] at hbit
  exact hbit

/-- Where allocations only go, and no blade is marked on a CMG with a wrong number, a
blade that is given back was that of an allocation that went. -/
theorem Sheds.harmless (h : Sheds hw d d') (hd : Harmless hw d)
    (hnum : ∀ i, (d.cmgs i).cmg_id = i.val ∨ ∀ b, d.bb i b = false) : Harmless hw d' := by
  refine ⟨hd.distinct.sublist h.places, fun a ha => ?_⟩
  obtain ⟨i, hcmg, hcpus⟩ := h.on_cmgs hd.orderly.on_cmgs a ha
  have hplace : (i.val, a.blade) ∈ d'.places := by
    rw [← hcmg]
    exact List.mem_map_of_mem ha
  have hbit := hd.bb_of_place (h.places.subset hplace)
  refine ⟨i, hcpus, hcmg, ?_⟩
  rcases h.kept i a.blade hbit with hbit' | ⟨p, hp, hno, hb, hc⟩
  · exact hbit'
  · -- the place that went would be that of `a`
    have hi : p.1 = i.val := by
      rcases hc with hc | hc
      · exact hc
      · rcases hnum i with hn | hn
        · rw [hn] at hc
          exact_mod_cast hc
        · rw [hn] at hbit
          cases hbit
    have hp' : p = (i.val, a.blade) := Prod.ext hi hb
    rw [hp'] at hno
    exact absurd hplace hno

/-- **An allocation that comes does no harm exactly if it names the CMG whose blade it
takes, and its CPUs lie there**, given that one of them does. -/
theorem Adds.harmless_iff (h : Adds i a d d') (hd : Harmless hw d)
    (hfree : d.bb i a.blade = false) (hcpu : ∃ k, a.cpumask.getLsbD k = true ∧ hw.cmg k = i) :
    Harmless hw d' ↔ a.cmg = i.val ∧ ∀ k, a.cpumask.getLsbD k = true → hw.cmg k = i := by
  constructor
  · intro hd'
    obtain ⟨k, hk, hki⟩ := hcpu
    obtain ⟨i', hcpus, hcmg, -⟩ := hd'.marked a (h.allocs.mem_iff.mpr List.mem_cons_self)
    have hi : i' = i := (hcpus k hk).symm.trans hki
    rw [hi] at hcmg hcpus
    exact ⟨hcmg, hcpus⟩
  · rintro ⟨hcmg, hcpus⟩
    have hplaces : d'.places.Perm (a.place :: d.places) := h.allocs.map _
    constructor
    · rw [hplaces.nodup_iff, List.nodup_cons]
      refine ⟨fun hmem => ?_, hd.distinct⟩
      rw [a64fx_task_allocation.place, hcmg] at hmem
      rw [hd.bb_of_place hmem] at hfree
      cases hfree
    · intro x hx
      rcases List.mem_cons.mp (h.allocs.mem_iff.mp hx) with rfl | hx
      · exact ⟨i, hcpus, hcmg, (h.bb i _).mpr (Or.inr ⟨rfl, rfl⟩)⟩
      · obtain ⟨i', hcpus', hcmg', hbit⟩ := hd.marked x hx
        exact ⟨i', hcpus', hcmg', (h.bb i' _).mpr (Or.inl hbit)⟩

/-! ## A request -/

/-- The entries of the CPUs that `check_cpumask` looks at have the CMG of the CPU. -/
def Sited (hw : Machine) (d : a64fx_hwb_device) : Prop :=
  ∀ pe ∈ check_cpumask_pes d, ∀ k : ℕ, pe.cpu_id = k → pe.cmg_id = (hw.cmg k).val

/-- A mask that is accepted is accepted for the CMG of one of its CPUs. -/
theorem Sited.accepted {online mask : cpumask_t} (h : Sited hw d)
    (hcheck : 0 ≤ check_cpumask online d mask) :
    ∃ k, mask.getLsbD k = true ∧ check_cpumask online d mask = (hw.cmg k).val := by
  have hpes : ∀ pe ∈ check_cpumask_pes d, ∀ k : ℕ, pe.cpu_id = k → 0 ≤ pe.cmg_id := by
    intro pe hpe k hk
    rw [h pe hpe k hk]
    omega
  obtain ⟨k, hk, pe, hpe, hcpu, heq⟩ := check_cpumask_entry hpes hcheck
  exact ⟨k, hk, heq.trans (h pe hpe k hcpu)⟩

/-- The event is a BB_ALLOC with the mask `mask` that takes blade `b` of CMG `i`. -/
def Event.Takes (e : Event hw) (s : Kernel) (i : Fin MAX_NUM_CMG) (mask : cpumask_t) (b : ℕ) :
    Prop :=
  ∃ arg ioc, e.request = .ioctl (.BB_ALLOC arg) ∧ arg.read = some ioc ∧ arg.pemask = some mask ∧
    check_cpumask e.call.online s.dev mask = i.val ∧ Registers e.call i s b

theorem sheds_of_free_event {arg : UserArg fujitsu_hwb_ioc_bb_ctl} {reply : Reply}
    (he : e.request = .ioctl (.BB_FREE arg)) (ho : Orderly hw s.dev)
    (h : handle e s = .ok (reply, s')) : Sheds hw s.dev s'.dev := by
  cases hread : arg.read with
  | none =>
      rw [handle_unread (Or.inr (Or.inr ⟨arg, he, hread⟩))] at h
      cases h
      exact (Quiet.refl _).sheds
  | some ioc =>
      rw [free_event_map he hread, Loops.map_eq_ok] at h
      obtain ⟨⟨err, t⟩, hfree, hret⟩ := h
      cases hret
      exact sheds_of_free ho hfree

theorem sheds_of_assign_event {arg : UserArg fujitsu_hwb_ioc_bw_ctl} {reply : Reply}
    (he : e.request = .ioctl (.BW_ASSIGN arg)) (ho : Orderly hw s.dev)
    (h : handle e s = .ok (reply, s')) : Sheds hw s.dev s'.dev := by
  cases hread : arg.read with
  | none =>
      rw [handle_unread (Or.inl ⟨arg, he, hread⟩)] at h
      cases h
      exact (Quiet.refl _).sheds
  | some ioc =>
      rw [assign_event_eq he hread, Loops.map_eq_ok] at h
      obtain ⟨⟨ret, t⟩, hassign, hret⟩ := h
      cases hret
      exact (quiet_of_assign ho hassign).sheds

theorem sheds_of_unassign_event {arg : UserArg fujitsu_hwb_ioc_bw_ctl} {reply : Reply}
    (he : e.request = .ioctl (.BW_UNASSIGN arg)) (ho : Orderly hw s.dev)
    (h : handle e s = .ok (reply, s')) : Sheds hw s.dev s'.dev := by
  cases hread : arg.read with
  | none =>
      rw [handle_unread (Or.inr (Or.inl ⟨arg, he, hread⟩))] at h
      cases h
      exact (Quiet.refl _).sheds
  | some ioc =>
      rw [unassign_event_eq he hread, Loops.map_eq_ok] at h
      obtain ⟨⟨err, t⟩, hunassign, hret⟩ := h
      cases hret
      exact (quiet_of_unassign ho hunassign).sheds

theorem alloc_event_live {arg : AllocArg} {reply : Reply}
    (he : e.request = .ioctl (.BB_ALLOC arg)) (hs : Sited hw s.dev)
    (hnum : s.dev.num_bb_per_cmg ≤ MAX_BB_PER_CMG) (h : handle e s = .ok (reply, s')) :
    (∃ i mask b a, e.Takes s i mask b ∧ a.cmg = u8 (s.dev.cmgs i).cmg_id ∧ a.blade = b ∧
        a.cpumask = mask ∧ Adds i a s.dev s'.dev) ∨
      ((∀ i mask b, ¬e.Takes s i mask b) ∧ Sheds hw s.dev s'.dev) := by
  by_cases hacc : ∃ ioc mask, arg.read = some ioc ∧ arg.pemask = some mask ∧
      0 ≤ check_cpumask e.call.online s.dev mask
  · obtain ⟨ioc, mask, hread, hmask, hcheck⟩ := hacc
    obtain ⟨k, -, heq⟩ := hs.accepted hcheck
    rw [alloc_event_eq he hread hmask hcheck, heq, Loops.map_eq_ok] at h
    obtain ⟨⟨ret, t⟩, hallocate, hret⟩ := h
    cases hret
    rcases adds_or_sheds_of_allocate hnum hallocate with
      ⟨b, a, hreg, hcmg, hb, hcpus, hadds⟩ | ⟨hno, hsheds⟩
    · exact Or.inl ⟨hw.cmg k, mask, b, a, ⟨arg, ioc, he, hread, hmask, heq, hreg⟩, hcmg, hb, hcpus,
        hadds⟩
    · refine Or.inr ⟨?_, hsheds⟩
      rintro i mask' b ⟨arg', ioc', he', hread', hmask', hcheck', hreg⟩
      rw [he] at he'
      cases he'
      rw [hmask] at hmask'
      cases hmask'
      have hi : i.val = (hw.cmg k).val := by
        rw [heq] at hcheck'
        exact_mod_cast hcheck'.symm
      rw [Fin.ext hi] at hreg
      exact hno b hreg
  · have hneg : ∀ ioc mask, arg.read = some ioc → arg.pemask = some mask →
        check_cpumask e.call.online s.dev mask < 0 := fun ioc mask hread hmask =>
      lt_of_not_ge fun hcheck => hacc ⟨ioc, mask, hread, hmask, hcheck⟩
    rw [alloc_event_refused he hneg] at h
    cases h
    refine Or.inr ⟨?_, (Quiet.refl _).sheds⟩
    rintro i mask b ⟨arg', ioc, he', hread, hmask, hcheck, -⟩
    rw [he] at he'
    cases he'
    have hlt := hneg ioc mask hread hmask
    omega

/-- **A request adds the allocation for the blade it takes, or it takes none and adds
none.** -/
theorem adds_or_sheds {reply : Reply}
    (he : e.request = .open ∨ e.request = .close ∨ e.OnBlades) (ho : Orderly hw s.dev)
    (hs : Sited hw s.dev) (hnum : s.dev.num_bb_per_cmg ≤ MAX_BB_PER_CMG)
    (h : handle e s = .ok (reply, s')) :
    (∃ i mask b a, e.Takes s i mask b ∧ a.cmg = u8 (s.dev.cmgs i).cmg_id ∧ a.blade = b ∧
        a.cpumask = mask ∧ Adds i a s.dev s'.dev) ∨
      ((∀ i mask b, ¬e.Takes s i mask b) ∧ Sheds hw s.dev s'.dev) := by
  have hother : (∀ arg, e.request ≠ .ioctl (.BB_ALLOC arg)) → ∀ i mask b, ¬e.Takes s i mask b :=
    fun hne i mask b ⟨arg, ioc, hreq, _⟩ => hne arg hreq
  rcases he with he | he | ⟨arg, he⟩ | ⟨arg, he⟩ | ⟨arg, he⟩ | ⟨arg, he⟩
  · refine Or.inr ⟨hother (by simp [he]), ?_⟩
    unfold handle at h
    rw [he] at h
    exact (quiet_of_open h).sheds
  · refine Or.inr ⟨hother (by simp [he]), ?_⟩
    unfold handle at h
    rw [he] at h
    exact sheds_of_close ho h
  · exact alloc_event_live he hs hnum h
  · exact Or.inr ⟨hother (by simp [he]), sheds_of_free_event he ho h⟩
  · exact Or.inr ⟨hother (by simp [he]), sheds_of_assign_event he ho h⟩
  · exact Or.inr ⟨hother (by simp [he]), sheds_of_unassign_event he ho h⟩

end A64fxHwb
