/-
The base invariant of the bookkeeping.

Blades and windows are each kept twice: as a bit in a bitmap and as an entry of
an allocation. The two are the two views of a `Pool`, with the groups as holders
of blades and the blades as holders of windows, and the invariant says that the
pools are sound and exclusive. Coverage of the blade pool is part of it;
coverage of the window pool is not, since an operation of the driver can lose it.

`Inv` is about the device alone. The registers have invariants of their own.
-/
import A64fxHwb.Effects
import A64fxHwb.Pool

set_option autoImplicit false

namespace A64fxHwb

open BitWord

variable {hw : Machine} {l : Load hw} {d d' : a64fx_hwb_device}

/-! ## One allocation -/

/-- The allocation records window `w` for CPU `k`, a CPU of its CMG's table. -/
def Records (l : Load hw) (a : a64fx_task_allocation) (k w : ℕ) : Prop :=
  l.online.getLsbD k = true ∧ (hw.cmg k).val = a.cmg ∧ a.window (hw.slot k) = w

/-- At most one window is recorded for a CPU. -/
theorem Records.unique {a : a64fx_task_allocation} {k w w' : ℕ} (hr : Records l a k w)
    (hr' : Records l a k w') : w = w' := by
  have hval := hr.2.2.symm.trans hr'.2.2
  omega

/-- What holds of an allocation by itself: the four places that store which CPUs
have a window agree. -/
structure Sane (l : Load hw) (a : a64fx_task_allocation) : Prop where
  cmg_lt : a.cmg < MAX_NUM_CMG
  blade_lt : a.blade < MAX_BB_PER_CMG
  window : ∀ j, a.window j = A64FX_HWB_UNASSIGNED_WIN ∨
    (0 ≤ a.window j ∧ a.window j < MAX_BW_PER_CMG)
  assign_mask : ∀ k, a.assign_mask.getLsbD k = true ↔
    l.online.getLsbD k = true ∧ (hw.cmg k).val = a.cmg ∧
      a.window (hw.slot k) ≠ A64FX_HWB_UNASSIGNED_WIN
  subset : ∀ k, a.assign_mask.getLsbD k = true → a.cpumask.getLsbD k = true
  count : (weight a.assign_mask : ℤ) ≤ a.assign_count

/-- A CPU of the table on the allocation's CMG has a recorded window, or none. -/
theorem Sane.records_or_none {a : a64fx_task_allocation} (hs : Sane l a) {k : ℕ}
    (hon : l.online.getLsbD k = true) (hc : (hw.cmg k).val = a.cmg) :
    (∃ w < MAX_BW_PER_CMG, Records l a k w) ∨ a.window (hw.slot k) = A64FX_HWB_UNASSIGNED_WIN := by
  rcases hs.window (hw.slot k) with h | ⟨h0, h4⟩
  · exact Or.inr h
  · exact Or.inl ⟨(a.window (hw.slot k)).toNat, by omega, hon, hc, by omega⟩

/-- A CPU in the assign mask has a recorded window. -/
theorem Sane.recorded {a : a64fx_task_allocation} (hs : Sane l a) {k : ℕ}
    (hk : a.assign_mask.getLsbD k = true) : ∃ w < MAX_BW_PER_CMG, Records l a k w := by
  obtain ⟨hon, hc, hne⟩ := (hs.assign_mask k).mp hk
  rcases hs.records_or_none hon hc with h | h
  · exact h
  · exact absurd h hne

theorem Sane.assigned {a : a64fx_task_allocation} (hs : Sane l a) {k w : ℕ}
    (hr : Records l a k w) : a.assign_mask.getLsbD k = true := by
  refine (hs.assign_mask k).mpr ⟨hr.1, hr.2.1, ?_⟩
  rw [hr.2.2]
  show (w : ℤ) ≠ -1
  omega

theorem Sane.window_lt {a : a64fx_task_allocation} (hs : Sane l a) {k w : ℕ}
    (hr : Records l a k w) : w < MAX_BW_PER_CMG := by
  show w < 4
  have hw' : a.window (hw.slot k) = w := hr.2.2
  have hrange : a.window (hw.slot k) = -1 ∨ (0 ≤ a.window (hw.slot k) ∧ a.window (hw.slot k) < 4) :=
    hs.window (hw.slot k)
  omega

/-! ## The two pools -/

/-- The blade pool: groups hold places, a place is a CMG with a blade. -/
def blades (d : a64fx_hwb_device) : Pool ℕ (ℕ × ℕ) where
  taken p := ∃ c : Fin MAX_NUM_CMG, c.val = p.1 ∧ d.bb c p.2 = true
  records g p := ∃ a, Held d g a ∧ a.place = p

/-- The window pool: places hold windows, a window is a CPU with a number. -/
def windows (l : Load hw) (d : a64fx_hwb_device) : Pool (ℕ × ℕ) (ℕ × ℕ) where
  taken r := l.online.getLsbD r.1 = true ∧ d.bw (hw.cmg r.1) (hw.slot r.1) r.2 = true
  records p r := ∃ g a, Held d g a ∧ a.place = p ∧ Records l a r.1 r.2

/-! ## The invariant -/

/-- The base invariant. -/
structure Inv (l : Load hw) (d : a64fx_hwb_device) : Prop where
  table : Table l d
  lists : Lists d
  sane : ∀ g a, Held d g a → Sane l a
  blade_range : ∀ c b, d.bb c b = true → b < MAX_BB_PER_CMG
  window_range : ∀ k w, l.online.getLsbD k = true → d.bw (hw.cmg k) (hw.slot k) w = true →
    w < MAX_BW_PER_CMG
  blades_sound : (blades d).Sound
  blades_exclusive : (blades d).Exclusive
  blades_covered : (blades d).Covered
  windows_sound : (windows l d).Sound
  windows_exclusive : (windows l d).Exclusive

namespace Inv

/-- **A place is held once**: two held allocations for one CMG and blade are the
same allocation of the same group. -/
theorem unique (hi : Inv l d) {g g' : ℕ} {a a' : a64fx_task_allocation} (ha : Held d g a)
    (ha' : Held d g' a') (h : a.place = a'.place) : g = g' ∧ a = a' := by
  have hg : g = g' := hi.blades_exclusive g g' a.place ⟨a, ha, rfl⟩ ⟨a', ha', h.symm⟩
  subst hg
  exact ⟨rfl, hi.lists.eq_of_place ha ha' h⟩

/-- The bit of a held blade is set. -/
theorem bb_of_held (hi : Inv l d) {g : ℕ} {a : a64fx_task_allocation} (ha : Held d g a)
    {c : Fin MAX_NUM_CMG} (hc : a.cmg = c.val) : d.bb c a.blade = true := by
  obtain ⟨c', hc', hb⟩ := hi.blades_sound g a.place ⟨a, ha, rfl⟩
  have hcc : c' = c := Fin.ext (hc'.trans hc)
  rw [← hcc]
  exact hb

/-- The bit of a recorded window is set. -/
theorem bw_of_records (hi : Inv l d) {g : ℕ} {a : a64fx_task_allocation} (ha : Held d g a)
    {k w : ℕ} (hr : Records l a k w) : d.bw (hw.cmg k) (hw.slot k) w = true :=
  (hi.windows_sound a.place (k, w) ⟨g, a, ha, rfl, hr⟩).2

/-- Two held allocations that record one window of one CPU are the same. -/
theorem unique_window (hi : Inv l d) {g g' : ℕ} {a a' : a64fx_task_allocation} (ha : Held d g a)
    (ha' : Held d g' a') {k w : ℕ} (hr : Records l a k w) (hr' : Records l a' k w) :
    g = g' ∧ a = a' :=
  hi.unique ha ha' (hi.windows_exclusive a.place a'.place (k, w) ⟨g, a, ha, rfl, hr⟩
    ⟨g', a', ha', rfl, hr'⟩)

/-- With places held once, storing an allocation replaces one entry of one
group. -/
theorem held_store (hi : Inv l d) {tm : a64fx_task_mapping} {a a' : a64fx_task_allocation}
    (ha : Held d tm.group a) (hp : a'.place = a.place) (g : ℕ) (x : a64fx_task_allocation) :
    Held (d.store_alloc tm a') g x ↔
      (Held d g x ∧ x.place ≠ a.place) ∨ (g = tm.group ∧ x = a') := by
  rw [held_store_alloc hi.lists ha hp]
  constructor
  · rintro (⟨hx, hne⟩ | h)
    · exact Or.inl ⟨hx, fun hpx => hne ⟨(hi.unique hx ha hpx).1, hpx⟩⟩
    · exact Or.inr h
  · rintro (⟨hx, hne⟩ | h)
    · exact Or.inl ⟨hx, fun h => hne h.2⟩
    · exact Or.inr h

/-- With places held once, dropping an allocation drops its place. -/
theorem held_drop (hi : Inv l d) {tm : a64fx_task_mapping} {c : Fin MAX_NUM_CMG}
    {a : a64fx_task_allocation} (ha : Held d tm.group a) (g : ℕ) (x : a64fx_task_allocation) :
    Held (d.drop_alloc tm c a) g x ↔ Held d g x ∧ x.place ≠ a.place := by
  rw [held_drop_alloc hi.lists ha]
  constructor
  · rintro ⟨hx, hne⟩
    exact ⟨hx, fun hpx => hne ⟨(hi.unique hx ha hpx).1, hpx⟩⟩
  · rintro ⟨hx, hne⟩
    exact ⟨hx, fun h => hne h.2⟩

end Inv

/-! ## How the pools move -/

/-- Nothing changes for the blade pool when the blade bits stay and every place
keeps its group. -/
theorem blades_same (hbb : ∀ c b, d'.bb c b = d.bb c b)
    (hheld : ∀ g p, (∃ a, Held d' g a ∧ a.place = p) ↔ ∃ a, Held d g a ∧ a.place = p) :
    Pool.Same (blades d) (blades d') :=
  ⟨fun p => by simp only [blades, hbb], fun g p => hheld g p⟩

/-- Storing an allocation keeps every place with its group. -/
theorem places_store (hi : Inv l d) {tm : a64fx_task_mapping} {a a' : a64fx_task_allocation}
    (ha : Held d tm.group a) (hp : a'.place = a.place)
    (hheld : ∀ g x, Held d' g x ↔ (Held d g x ∧ x.place ≠ a.place) ∨ (g = tm.group ∧ x = a'))
    (g : ℕ) (p : ℕ × ℕ) :
    (∃ x, Held d' g x ∧ x.place = p) ↔ ∃ x, Held d g x ∧ x.place = p := by
  constructor
  · rintro ⟨x, hx, hxp⟩
    rcases (hheld g x).mp hx with ⟨hx, -⟩ | ⟨rfl, rfl⟩
    · exact ⟨x, hx, hxp⟩
    · exact ⟨a, ha, hp.symm.trans hxp⟩
  · rintro ⟨x, hx, hxp⟩
    by_cases hpx : x.place = a.place
    · obtain ⟨rfl, rfl⟩ := hi.unique hx ha hpx
      exact ⟨a', (hheld _ _).mpr (Or.inr ⟨rfl, rfl⟩), hp.trans hxp⟩
    · exact ⟨x, (hheld g x).mpr (Or.inl ⟨hx, hpx⟩), hxp⟩

/-- What is recorded after storing an allocation: the other places record what
they did, and the stored one what the new value says. -/
theorem records_store {tm : a64fx_task_mapping} {a a' : a64fx_task_allocation}
    (hp : a'.place = a.place)
    (hheld : ∀ g x, Held d' g x ↔ (Held d g x ∧ x.place ≠ a.place) ∨ (g = tm.group ∧ x = a'))
    (p r : ℕ × ℕ) : (windows l d').records p r ↔
      ((windows l d).records p r ∧ p ≠ a.place) ∨ (p = a.place ∧ Records l a' r.1 r.2) := by
  constructor
  · rintro ⟨g, x, hx, rfl, hr⟩
    rcases (hheld g x).mp hx with ⟨hx, hne⟩ | ⟨rfl, rfl⟩
    · exact Or.inl ⟨⟨g, x, hx, rfl, hr⟩, hne⟩
    · exact Or.inr ⟨hp, hr⟩
  · rintro (⟨⟨g, x, hx, rfl, hr⟩, hne⟩ | ⟨rfl, hr⟩)
    · exact ⟨g, x, (hheld g x).mpr (Or.inl ⟨hx, hne⟩), rfl, hr⟩
    · exact ⟨tm.group, a', (hheld _ _).mpr (Or.inr ⟨rfl, rfl⟩), hp, hr⟩

/-- What the place of a held allocation records is what the allocation records. -/
theorem records_of_held (hi : Inv l d) {g : ℕ} {a : a64fx_task_allocation} (ha : Held d g a)
    (r : ℕ × ℕ) : (windows l d).records a.place r ↔ Records l a r.1 r.2 := by
  constructor
  · rintro ⟨g', x, hx, hp, hr⟩
    rw [(hi.unique hx ha hp).2] at hr
    exact hr
  · exact fun hr => ⟨g, a, ha, rfl, hr⟩

end A64fxHwb
