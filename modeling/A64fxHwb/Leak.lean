/-
How many windows are lost.

A BW_ASSIGN with an explicit window for a blade that has a window on the caller's CPU
overwrites the old one, whose bit stays set. Here this is counted: in every state of every
run the four windows of a CPU are the free ones, the ones an allocation records, and one
for each time the CPU has overwritten a window since the last reset. An overwriting
BW_ASSIGN leaves its own window recorded, so it can happen three times and no more, and then
the CPU has one window left.
-/
import A64fxHwb.Windows
import A64fxHwb.Reset
import Mathlib.Algebra.BigOperators.Group.Finset.Piecewise

set_option autoImplicit false

namespace A64fxHwb

open BitWord Runs

variable {hw : Machine} {l : Load hw} {R : hwb_regs → Prop}
variable {d : a64fx_hwb_device} {s s' : Kernel} {e : Event hw} {k w : ℕ}

/-! ## The windows of a CPU -/

section Windows

variable (l : Load hw) (d : a64fx_hwb_device) (k : ℕ)

/-- The windows of CPU `k` that can be taken. -/
def free_windows (hw : Machine) (d : a64fx_hwb_device) (k : ℕ) : Finset ℕ :=
  (Finset.range MAX_BW_PER_CMG).filter fun w => d.bw (hw.cmg k) (hw.slot k) w = false

/-- The windows that an allocation records. -/
def recorded_windows : Finset ℕ :=
  (Finset.range MAX_BW_PER_CMG).filter fun w => d.recorders l k w ≠ []

/-- The windows that are taken and recorded nowhere. -/
def lost_windows : Finset ℕ :=
  (Finset.range MAX_BW_PER_CMG).filter fun w =>
    d.bw (hw.cmg k) (hw.slot k) w = true ∧ d.recorders l k w = []

end Windows

/-- **Each window is in one of the three conditions.** -/
theorem windows_partition (hi : Inv l d) :
    (free_windows hw d k).card + (recorded_windows l d k).card +
      (lost_windows l d k).card = MAX_BW_PER_CMG := by
  simp only [free_windows, recorded_windows, lost_windows, Finset.card_filter]
  rw [← Finset.sum_add_distrib, ← Finset.sum_add_distrib]
  have hone : ∀ w ∈ Finset.range MAX_BW_PER_CMG,
      ((if d.bw (hw.cmg k) (hw.slot k) w = false then 1 else 0) +
        (if d.recorders l k w ≠ [] then 1 else 0)) +
        (if d.bw (hw.cmg k) (hw.slot k) w = true ∧ d.recorders l k w = [] then 1 else 0) = 1 := by
    intro w _
    by_cases hrec : d.recorders l k w = []
    · by_cases hbit : d.bw (hw.cmg k) (hw.slot k) w = true
      · simp [hrec, hbit]
      · simp [hrec, hbit]
    · -- a recorded window is taken
      obtain ⟨a, ha⟩ := List.exists_mem_of_ne_nil _ hrec
      obtain ⟨⟨g, hheld⟩, hr⟩ := mem_recorders.mp ha
      simp [hrec, hi.bw_of_records hheld hr]
  rw [Finset.sum_congr rfl hone, ← Finset.card_eq_sum_ones, Finset.card_range]

theorem mem_recorded_windows : w ∈ recorded_windows l d k ↔
    w < MAX_BW_PER_CMG ∧ ∃ p, (windows l d).records p (k, w) := by
  rw [recorded_windows, Finset.mem_filter, Finset.mem_range]
  refine and_congr_right fun _ => ?_
  constructor
  · intro hne
    obtain ⟨a, ha⟩ := List.exists_mem_of_ne_nil _ hne
    obtain ⟨⟨g, hheld⟩, hr⟩ := mem_recorders.mp ha
    exact ⟨a.place, g, a, hheld, rfl, hr⟩
  · rintro ⟨p, g, a, hheld, -, hr⟩
    exact List.ne_nil_of_mem (mem_recorders.mpr ⟨⟨g, hheld⟩, hr⟩)

/-- The lost windows are those that the pool calls lost. -/
theorem mem_lost_windows (hk : l.online.getLsbD k = true) : w ∈ lost_windows l d k ↔
    w < MAX_BW_PER_CMG ∧ (windows l d).Lost (k, w) := by
  rw [lost_windows, Finset.mem_filter, Finset.mem_range]
  refine and_congr_right fun _ => and_congr ⟨fun hbit => ⟨hk, hbit⟩, fun ht => ht.2⟩ ?_
  rw [List.eq_nil_iff_forall_not_mem]
  constructor
  · rintro hnone p ⟨g, a, hheld, -, hr⟩
    exact hnone a (mem_recorders.mpr ⟨⟨g, hheld⟩, hr⟩)
  · intro hnone a ha
    obtain ⟨⟨g, hheld⟩, hr⟩ := mem_recorders.mp ha
    exact hnone a.place ⟨g, a, hheld, rfl, hr⟩

/-! ## What an event loses -/

/-- An event that overwrites nothing, and is no reset, loses nothing. -/
theorem lost_windows_of_other (h : (driver l R).Reachable s) (hstep : (driver l R).step s e s')
    (hno : e.request ≠ .ioctl .RESET) (hre : ¬Reassigns e s) (hk : l.online.getLsbD k = true) :
    lost_windows l s'.dev k = lost_windows l s.dev k := by
  have hsame : ∀ r, (windows l s'.dev).Lost r ↔ (windows l s.dev).Lost r := by
    refine preserves_of_step
      (P := fun t => ∀ r, (windows l t.dev).Lost r ↔ (windows l s.dev).Lost r) h hstep ?_
      fun _ => Iff.rfl
    intro t t' hi ht hm r
    rw [← ht r]
    cases hm.window_step hi with
    | same m _ => exact m.lost_iff
    | acquires g a k w _ _ _ _ _ m _ => exact m.lost_iff
    | replaces hok => exact absurd hok hre
    | releases g a k w wr _ _ _ _ m _ => exact m.lost_iff
    | empties hreset => exact absurd hreset hno
  ext w
  rw [mem_lost_windows hk, mem_lost_windows hk, hsame]

/-- **An overwriting BW_ASSIGN loses one window of its CPU**, and none of another. -/
theorem lost_windows_of_reassigns (h : (driver l R).Reachable s)
    (hstep : (driver l R).step s e s') (hre : Reassigns e s) (hk : l.online.getLsbD k = true) :
    (lost_windows l s'.dev k).card =
        (if k = e.call.cpu then (lost_windows l s.dev k).card + 1
          else (lost_windows l s.dev k).card) ∧
      (k = e.call.cpu → (recorded_windows l s'.dev k).Nonempty) := by
  obtain ⟨hi, hlock⟩ := reachable_inv h
  obtain ⟨-, reply, hok⟩ := hstep
  obtain ⟨m, hm, a, ha, w, hw4, w₀, hr₀, hbit, rfl⟩ := reassigns_taken hi hlock hok hre
  have hheld : Held s.dev m.group a := ⟨m, hm, rfl, ha⟩
  have hrep := (windows_take hi hheld hr₀.1 hr₀.2.1 hw4 hbit).2 w₀ hr₀
  have hiff := fun x => hrep.lost_iff (x := x) hi.windows_sound hi.windows_exclusive
  by_cases hcpu : k = e.call.cpu
  · subst hcpu
    have hinsert : lost_windows l (taken e.call m e.call.cpu w a s).dev e.call.cpu =
        insert w₀ (lost_windows l s.dev e.call.cpu) := by
      ext x
      rw [Finset.mem_insert, mem_lost_windows hk, mem_lost_windows hk]
      rw [show (windows l (taken e.call m e.call.cpu w a s).dev).Lost (e.call.cpu, x) ↔ _ from
        hiff (e.call.cpu, x)]
      constructor
      · rintro ⟨hx4, hl | heq⟩
        · exact Or.inr ⟨hx4, hl⟩
        · exact Or.inl (congrArg Prod.snd heq)
      · rintro (rfl | ⟨hx4, hl⟩)
        · exact ⟨(hi.sane _ a hheld).window_lt hr₀, Or.inr rfl⟩
        · exact ⟨hx4, Or.inl hl⟩
    -- the old window was recorded until now
    have hnew : w₀ ∉ lost_windows l s.dev e.call.cpu := by
      rw [mem_lost_windows hk]
      rintro ⟨-, hl⟩
      exact hl.2 a.place ⟨m.group, a, hheld, rfl, hr₀⟩
    refine ⟨?_, fun _ => ⟨w, ?_⟩⟩
    · rw [hinsert, Finset.card_insert_of_notMem hnew, if_pos rfl]
    · exact mem_recorded_windows.mpr
        ⟨hw4, a.place, (hrep.2.2.2 a.place (e.call.cpu, w)).mpr (Or.inr ⟨rfl, rfl⟩)⟩
  · refine ⟨?_, fun heq => absurd heq hcpu⟩
    rw [if_neg hcpu]
    refine congrArg Finset.card (Finset.ext fun x => ?_)
    rw [mem_lost_windows hk, mem_lost_windows hk]
    rw [show (windows l (taken e.call m e.call.cpu w a s).dev).Lost (k, x) ↔ _ from hiff (k, x)]
    refine and_congr_right fun _ => or_iff_left ?_
    exact fun heq => hcpu (congrArg Prod.fst heq)

/-- A reset gives everything back. -/
theorem lost_windows_of_reset (h : (driver l R).Reachable s) (hstep : (driver l R).step s e s')
    (he : e.request = .ioctl .RESET) (hk : l.online.getLsbD k = true) :
    lost_windows l s'.dev k = ∅ := by
  obtain ⟨hi, hlock⟩ := reachable_inv h
  obtain ⟨-, reply, hok⟩ := hstep
  unfold handle oss_a64fx_hwb_ioctl at hok
  simp only [he, reset_eq hlock, Loops.ok_bind] at hok
  cases hok
  apply Finset.eq_empty_of_forall_notMem
  intro w hlost
  rw [mem_lost_windows hk] at hlost
  have hbit : s.dev.reset.bw (hw.cmg k) (hw.slot k) w = true := hlost.2.1.2
  simp [a64fx_hwb_device.bw, a64fx_hwb_device.reset] at hbit

/-! ## Runs -/

open Classical in
/-- How often each CPU has overwritten a window since the last reset. -/
noncomputable def tally (s : Kernel) (e : Event hw) (n : ℕ → ℕ) : ℕ → ℕ :=
  if e.request = .ioctl .RESET then fun _ => 0
  else if Reassigns e s then Function.update n e.call.cpu (n e.call.cpu + 1) else n

/-- The driver with the tally. -/
noncomputable def tallied (l : Load hw) (R : hwb_regs → Prop) :
    TransitionSystem (Kernel × (ℕ → ℕ)) (Event hw) :=
  (driver l R).withHistory (fun _ => 0) fun s e _ n => tally s e n

/-- What the tally says of CPU `k`: it counts the lost windows, and one is left. -/
def Tallies (l : Load hw) (k : ℕ) (x : Kernel × (ℕ → ℕ)) : Prop :=
  (lost_windows l x.1.dev k).card = x.2 k ∧ x.2 k < MAX_BW_PER_CMG

theorem tally_of_run {x : Kernel × (ℕ → ℕ)} (h : (tallied l R).Reachable x)
    (hk : l.online.getLsbD k = true) : Tallies l k x := by
  refine h.invariant (P := Tallies l k) ?_ ?_
  · rintro ⟨s, n⟩ ⟨⟨regs, -, hload⟩, rfl⟩
    refine ⟨?_, Nat.zero_lt_succ 3⟩
    show (lost_windows l s.dev k).card = 0
    rw [Finset.card_eq_zero]
    apply Finset.eq_empty_of_forall_notMem
    intro w hlost
    rw [mem_lost_windows hk, hload.spec.1] at hlost
    exact (loaded_windows hload.packed).not_lost hlost.2
  · rintro ⟨s, n⟩ e ⟨s', n'⟩ hreach ⟨hcard, hlt⟩ - ⟨hstep, hn⟩
    have hs : (driver l R).Reachable s := hreach.forget
    change n' = tally s e n at hn
    change (lost_windows l s.dev k).card = n k at hcard
    change n k < MAX_BW_PER_CMG at hlt
    show (lost_windows l s'.dev k).card = n' k ∧ n' k < MAX_BW_PER_CMG
    unfold tally at hn
    by_cases he : e.request = .ioctl .RESET
    · rw [if_pos he] at hn
      rw [hn, lost_windows_of_reset hs hstep he hk]
      exact ⟨Finset.card_empty, Nat.zero_lt_succ 3⟩
    rw [if_neg he] at hn
    by_cases hre : Reassigns e s
    · rw [if_pos hre] at hn
      obtain ⟨hone, hrecorded⟩ := lost_windows_of_reassigns hs hstep hre hk
      rw [hone, hcard, hn]
      by_cases hcpu : k = e.call.cpu
      · subst hcpu
        rw [if_pos rfl, Function.update_self]
        rw [if_pos rfl, hcard] at hone
        -- the window that is recorded now is not among the lost ones
        have hsum := windows_partition (k := e.call.cpu) (reachable_inv (.step hs trivial hstep)).1
        have hpos := (hrecorded rfl).card_pos
        omega
      · rw [if_neg hcpu, Function.update_of_ne hcpu]
        exact ⟨rfl, hlt⟩
    · rw [if_neg hre] at hn
      rw [hn, lost_windows_of_other hs hstep he hre hk]
      exact ⟨hcard, hlt⟩

/-- **The windows of a CPU are conserved.** In every state of every run they are the free
ones, the recorded ones, and one for each overwriting BW_ASSIGN on the CPU since the last
reset; there are at most three of these. -/
theorem windows_conserved {x : Kernel × (ℕ → ℕ)} (h : (tallied l R).Reachable x)
    (hk : l.online.getLsbD k = true) :
    (free_windows hw x.1.dev k).card + (recorded_windows l x.1.dev k).card + x.2 k =
      MAX_BW_PER_CMG ∧ x.2 k ≤ 3 := by
  obtain ⟨hcard, hlt⟩ := tally_of_run h hk
  have hs : (driver l R).Reachable x.1 := h.forget
  have hsum := windows_partition (k := k) (reachable_inv hs).1
  change x.2 k < 4 at hlt
  constructor
  · omega
  · omega

/-- CPU 0 takes window 0, and overwrites it by 1, 2 and 3. -/
def three_overwrites : List (Event Quad.machine) :=
  [Quad.alloc Quad.first 0 0x3, Quad.assign Quad.first 0 0 (-1), Quad.assign Quad.first 0 0 1,
    Quad.assign Quad.first 0 0 2, Quad.assign Quad.first 0 0 3]

/-- After that one window of CPU 0 is left, and the tally stands at three. -/
theorem windows_conserved_three_overwrites : ∃ n,
    (tallied Quad.load fun _ => True).Reachable (after Quad.load three_overwrites, n) ∧
      recorded_windows Quad.load (after Quad.load three_overwrites).dev 0 = {3} ∧
      free_windows Quad.machine (after Quad.load three_overwrites).dev 0 = ∅ ∧ n 0 = 3 := by
  have hreach : (driver Quad.load fun _ => True).Reachable (after Quad.load three_overwrites) :=
    reachable_after trivial (by decide +kernel) (by decide)
  obtain ⟨n, hn⟩ := hreach.recorded (fun _ => 0) fun s e _ n => tally s e n
  have hrec : recorded_windows Quad.load (after Quad.load three_overwrites).dev 0 = {3} := by
    decide +kernel
  have hfree : free_windows Quad.machine (after Quad.load three_overwrites).dev 0 = ∅ := by
    decide +kernel
  obtain ⟨hsum, -⟩ := windows_conserved (l := Quad.load) (k := 0) hn (by decide)
  rw [hrec, hfree] at hsum
  refine ⟨n, hn, hrec, hfree, ?_⟩
  change 0 + 1 + n 0 = 4 at hsum
  omega

end A64fxHwb
