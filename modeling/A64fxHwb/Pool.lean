/-
Exclusive resources kept in two places: a bitmap that says which resources are
taken, and holders that each record the resources they took.

A `Pool` is the two views side by side. It is *sound* when everything recorded
is taken, *exclusive* when no resource is recorded by two holders, and *covered*
when everything taken is recorded by somebody. The transitions are the ones an
allocator makes: a holder acquires a free resource, gives up some of its own, or
overwrites its record of one resource by another one (`Replaces`), which leaves
the old resource taken and recorded by nobody.

Soundness and exclusivity survive all three; coverage survives the first two
and is lost for good by the third (`Replaces.lost`). Where a register for
each resource names its holder, the same goes for the agreement of the registers
with the records (`Mirrors`).
-/
import Mathlib.Tactic.Common

set_option autoImplicit false

/-- Which resources are taken, and which holder records which resource. -/
structure Pool (H R : Type*) where
  taken : R → Prop
  records : H → R → Prop

namespace Pool

variable {H R : Type*} {P P' : Pool H R}

/-- What is recorded is taken. -/
def Sound (P : Pool H R) : Prop := ∀ h r, P.records h r → P.taken r

/-- No resource is recorded by two holders. -/
def Exclusive (P : Pool H R) : Prop := ∀ h h' r, P.records h r → P.records h' r → h = h'

/-- What is taken is recorded. -/
def Covered (P : Pool H R) : Prop := ∀ r, P.taken r → ∃ h, P.records h r

/-- The resource `x` is taken, and nobody records it. -/
def Lost (P : Pool H R) (x : R) : Prop := P.taken x ∧ ∀ k, ¬P.records k x

theorem Lost.not_covered {x : R} (hl : P.Lost x) : ¬P.Covered := by
  intro hc
  obtain ⟨k, hk⟩ := hc x hl.1
  exact hl.2 k hk

/-! ## The transitions -/

/-- The two views after a step that concerns neither. -/
def Same (P P' : Pool H R) : Prop :=
  (∀ x, P'.taken x ↔ P.taken x) ∧ ∀ k x, P'.records k x ↔ P.records k x

/-- Holder `h` takes the free resource `r`. -/
def Acquires (P P' : Pool H R) (h : H) (r : R) : Prop :=
  ¬P.taken r ∧ (∀ x, P'.taken x ↔ P.taken x ∨ x = r) ∧
    ∀ k x, P'.records k x ↔ P.records k x ∨ (k = h ∧ x = r)

/-- Holder `h` gives up the resource `r` it recorded. -/
def Releases (P P' : Pool H R) (h : H) (r : R) : Prop :=
  P.records h r ∧ (∀ x, P'.taken x ↔ P.taken x ∧ x ≠ r) ∧
    ∀ k x, P'.records k x ↔ P.records k x ∧ ¬(k = h ∧ x = r)

/-- Holder `h` takes the free resource `r` and forgets that it holds `r₀`. -/
def Replaces (P P' : Pool H R) (h : H) (r₀ r : R) : Prop :=
  ¬P.taken r ∧ P.records h r₀ ∧ (∀ x, P'.taken x ↔ P.taken x ∨ x = r) ∧
    ∀ k x, P'.records k x ↔ (P.records k x ∧ ¬(k = h ∧ x = r₀)) ∨ (k = h ∧ x = r)

/-- Nothing is taken and nothing is recorded. -/
def Empty (P : Pool H R) : Prop := (∀ x, ¬P.taken x) ∧ ∀ k x, ¬P.records k x

/-! ## What each transition preserves -/

theorem Empty.sound (h : P.Empty) : P.Sound := fun k x hx => absurd hx (h.2 k x)

theorem Empty.exclusive (h : P.Empty) : P.Exclusive := fun k _ x hx => absurd hx (h.2 k x)

theorem Empty.covered (h : P.Empty) : P.Covered := fun x hx => absurd hx (h.1 x)

theorem Same.sound (h : Same P P') (hs : P.Sound) : P'.Sound := fun k x hx =>
  (h.1 x).mpr (hs k x ((h.2 k x).mp hx))

theorem Same.exclusive (h : Same P P') (he : P.Exclusive) : P'.Exclusive := fun k k' x hx hx' =>
  he k k' x ((h.2 k x).mp hx) ((h.2 k' x).mp hx')

theorem Same.covered (h : Same P P') (hc : P.Covered) : P'.Covered := fun x hx =>
  let ⟨k, hk⟩ := hc x ((h.1 x).mp hx)
  ⟨k, (h.2 k x).mpr hk⟩

section Acquires

variable {h : H} {r : R}

theorem Acquires.sound (ha : Acquires P P' h r) (hs : P.Sound) : P'.Sound := by
  intro k x hx
  rcases (ha.2.2 k x).mp hx with hx | ⟨-, rfl⟩
  · exact (ha.2.1 x).mpr (Or.inl (hs k x hx))
  · exact (ha.2.1 x).mpr (Or.inr rfl)

/-- A recorded resource is taken, so nobody can have recorded the one that was
free until now. -/
theorem Acquires.exclusive (ha : Acquires P P' h r) (hs : P.Sound) (he : P.Exclusive) :
    P'.Exclusive := by
  intro k k' x hx hx'
  rcases (ha.2.2 k x).mp hx with hx | ⟨rfl, rfl⟩
  · rcases (ha.2.2 k' x).mp hx' with hx' | ⟨-, rfl⟩
    · exact he k k' x hx hx'
    · exact absurd (hs k x hx) ha.1
  · rcases (ha.2.2 k' x).mp hx' with hx' | ⟨rfl, -⟩
    · exact absurd (hs k' x hx') ha.1
    · rfl

theorem Acquires.covered (ha : Acquires P P' h r) (hc : P.Covered) : P'.Covered := by
  intro x hx
  rcases (ha.2.1 x).mp hx with hx | rfl
  · obtain ⟨k, hk⟩ := hc x hx
    exact ⟨k, (ha.2.2 k x).mpr (Or.inl hk)⟩
  · exact ⟨h, (ha.2.2 h x).mpr (Or.inr ⟨rfl, rfl⟩)⟩

end Acquires

section Releases

variable {h : H} {r : R}

/-- Exclusivity is what makes clearing the resource safe: nobody else's record
is lost with it. -/
theorem Releases.sound (hr : Releases P P' h r) (hs : P.Sound) (he : P.Exclusive) : P'.Sound := by
  intro k x hx
  obtain ⟨hx, hne⟩ := (hr.2.2 k x).mp hx
  refine (hr.2.1 x).mpr ⟨hs k x hx, ?_⟩
  -- a record of `r` would be the holder's own, which it gave up
  rintro rfl
  exact hne ⟨he k h x hx hr.1, rfl⟩

theorem Releases.exclusive (hr : Releases P P' h r) (he : P.Exclusive) : P'.Exclusive :=
  fun k k' x hx hx' => he k k' x ((hr.2.2 k x).mp hx).1 ((hr.2.2 k' x).mp hx').1

theorem Releases.covered (hr : Releases P P' h r) (hc : P.Covered) : P'.Covered := by
  intro x hx
  obtain ⟨hx, hne⟩ := (hr.2.1 x).mp hx
  obtain ⟨k, hk⟩ := hc x hx
  exact ⟨k, (hr.2.2 k x).mpr ⟨hk, fun e => hne e.2⟩⟩

end Releases

section Replaces

variable {h : H} {r₀ r : R}

theorem Replaces.sound (hr : Replaces P P' h r₀ r) (hs : P.Sound) : P'.Sound := by
  intro k x hx
  rcases (hr.2.2.2 k x).mp hx with ⟨hx, -⟩ | ⟨-, rfl⟩
  · exact (hr.2.2.1 x).mpr (Or.inl (hs k x hx))
  · exact (hr.2.2.1 x).mpr (Or.inr rfl)

theorem Replaces.exclusive (hr : Replaces P P' h r₀ r) (hs : P.Sound) (he : P.Exclusive) :
    P'.Exclusive := by
  intro k k' x hx hx'
  rcases (hr.2.2.2 k x).mp hx with ⟨hx, -⟩ | ⟨rfl, rfl⟩
  · rcases (hr.2.2.2 k' x).mp hx' with ⟨hx', -⟩ | ⟨-, rfl⟩
    · exact he k k' x hx hx'
    · exact absurd (hs k x hx) hr.1
  · rcases (hr.2.2.2 k' x).mp hx' with ⟨hx', -⟩ | ⟨rfl, -⟩
    · exact absurd (hs k' x hx') hr.1
    · rfl

/-- The overwritten resource stays taken, and since its only holder forgot it,
nobody records it any more. -/
theorem Replaces.lost (hr : Replaces P P' h r₀ r) (hs : P.Sound) (he : P.Exclusive) :
    P'.Lost r₀ := by
  have hne : r₀ ≠ r := by
    rintro rfl
    exact hr.1 (hs h r₀ hr.2.1)
  refine ⟨(hr.2.2.1 r₀).mpr (Or.inl (hs h r₀ hr.2.1)), fun k hk => ?_⟩
  -- a record of `r₀` would be an old one, and the only old one was overwritten
  rcases (hr.2.2.2 k r₀).mp hk with ⟨hk, hforgot⟩ | ⟨-, heq⟩
  · exact hforgot ⟨he k h r₀ hk hr.2.1, rfl⟩
  · exact hne heq

end Replaces

/-! ## What is lost stays lost

A lost resource is not free to be taken, and nobody can give it up. -/

section Lost

variable {h : H} {r r₀ x : R}

theorem Lost.same (hl : P.Lost x) (hsame : Same P P') : P'.Lost x :=
  ⟨(hsame.1 x).mpr hl.1, fun k hk => hl.2 k ((hsame.2 k x).mp hk)⟩

theorem Lost.acquires (hl : P.Lost x) (ha : Acquires P P' h r) : P'.Lost x := by
  refine ⟨(ha.2.1 x).mpr (Or.inl hl.1), fun k hk => ?_⟩
  rcases (ha.2.2 k x).mp hk with hk | ⟨-, rfl⟩
  · exact hl.2 k hk
  · exact ha.1 hl.1

theorem Lost.releases (hl : P.Lost x) (hr : Releases P P' h r) : P'.Lost x := by
  refine ⟨(hr.2.1 x).mpr ⟨hl.1, ?_⟩, fun k hk => hl.2 k ((hr.2.2 k x).mp hk).1⟩
  -- only a resource that somebody records can be given up
  rintro rfl
  exact hl.2 h hr.1

theorem Lost.replaces (hl : P.Lost x) (hr : Replaces P P' h r₀ r) : P'.Lost x := by
  refine ⟨(hr.2.2.1 x).mpr (Or.inl hl.1), fun k hk => ?_⟩
  rcases (hr.2.2.2 k x).mp hk with ⟨hk, -⟩ | ⟨-, rfl⟩
  · exact hl.2 k hk
  · exact hr.1 hl.1

end Lost

/-! ## What is lost, exactly

Only a replacement loses a resource, and it loses the one it overwrites. -/

section LostIff

variable {h : H} {r r₀ x : R}

theorem Empty.not_lost (he : P.Empty) : ¬P.Lost x := fun hl => he.1 x hl.1

theorem Same.lost_iff (hsame : Same P P') : P'.Lost x ↔ P.Lost x := by
  refine ⟨fun hl => ⟨(hsame.1 x).mp hl.1, fun k hk => ?_⟩, fun hl => hl.same hsame⟩
  exact hl.2 k ((hsame.2 k x).mpr hk)

theorem Acquires.lost_iff (ha : Acquires P P' h r) : P'.Lost x ↔ P.Lost x := by
  refine ⟨fun hl => ?_, fun hl => hl.acquires ha⟩
  rcases (ha.2.1 x).mp hl.1 with hx | rfl
  · exact ⟨hx, fun k hk => hl.2 k ((ha.2.2 k x).mpr (Or.inl hk))⟩
  · -- the new resource is recorded
    exact absurd ((ha.2.2 h x).mpr (Or.inr ⟨rfl, rfl⟩)) (hl.2 h)

theorem Releases.lost_iff (hr : Releases P P' h r) : P'.Lost x ↔ P.Lost x := by
  refine ⟨fun hl => ?_, fun hl => hl.releases hr⟩
  obtain ⟨hx, hne⟩ := (hr.2.1 x).mp hl.1
  exact ⟨hx, fun k hk => hl.2 k ((hr.2.2 k x).mpr ⟨hk, fun h' => hne h'.2⟩)⟩

/-- A replacement loses the resource that is overwritten, and no other. -/
theorem Replaces.lost_iff (hr : Replaces P P' h r₀ r) (hs : P.Sound) (he : P.Exclusive) :
    P'.Lost x ↔ P.Lost x ∨ x = r₀ := by
  constructor
  · intro hl
    rcases (hr.2.2.1 x).mp hl.1 with hx | rfl
    · by_cases hne : x = r₀
      · exact Or.inr hne
      · refine Or.inl ⟨hx, fun k hk => ?_⟩
        exact hl.2 k ((hr.2.2.2 k x).mpr (Or.inl ⟨hk, fun h' => hne h'.2⟩))
    · exact absurd ((hr.2.2.2 h x).mpr (Or.inr ⟨rfl, rfl⟩)) (hl.2 h)
  · rintro (hl | rfl)
    · exact hl.replaces hr
    · exact hr.lost hs he

end LostIff

/-! ## Moves

A bookkeeping step that is one of the transitions, for a proof that does not
care which. -/

/-- One of the transitions, or the pool emptied as a whole; `replaceable` says
whether replacing a record is among them. -/
inductive Move (replaceable : Prop) (P P' : Pool H R) : Prop
  | same (m : Same P P')
  | acquires (h : H) (r : R) (m : Acquires P P' h r)
  | releases (h : H) (r : R) (m : Releases P P' h r)
  | replaces (ok : replaceable) (h : H) (r₀ r : R) (m : Replaces P P' h r₀ r)
  | empties (m : P'.Empty)

section Move

variable {replaceable : Prop}

theorem Move.sound (hm : Move replaceable P P') (hs : P.Sound) (he : P.Exclusive) : P'.Sound := by
  cases hm with
  | same m => exact m.sound hs
  | acquires h r m => exact m.sound hs
  | releases h r m => exact m.sound hs he
  | replaces _ h r₀ r m => exact m.sound hs
  | empties m => exact m.sound

theorem Move.exclusive (hm : Move replaceable P P') (hs : P.Sound) (he : P.Exclusive) :
    P'.Exclusive := by
  cases hm with
  | same m => exact m.exclusive he
  | acquires h r m => exact m.exclusive hs he
  | releases h r m => exact m.exclusive he
  | replaces _ h r₀ r m => exact m.exclusive hs he
  | empties m => exact m.exclusive

/-- Coverage survives every move but a replacement. -/
theorem Move.covered (hm : Move replaceable P P') (hno : ¬replaceable) (hc : P.Covered) :
    P'.Covered := by
  cases hm with
  | same m => exact m.covered hc
  | acquires h r m => exact m.covered hc
  | releases h r m => exact m.covered hc
  | replaces ok => exact absurd ok hno
  | empties m => exact m.covered

end Move

/-! ## A register for each resource

Hardware may keep the records once more: one register for each resource, which
names the holder or nobody. The register of the resource in question is the only
one a transition has to write. -/

/-- A register names a holder exactly when the holder records the resource. -/
def Mirrors (P : Pool H R) (reg : R → Option H) : Prop := ∀ h r, P.records h r ↔ reg r = some h

section Mirrors

variable {reg reg' : R → Option H} {h : H} {r r₀ : R}

theorem Same.mirrors (hsame : Same P P') (hm : P.Mirrors reg) : P'.Mirrors reg := fun k x =>
  (hsame.2 k x).trans (hm k x)

theorem Empty.mirrors (he : P.Empty) (hreg : ∀ x, reg x = none) : P.Mirrors reg := by
  intro k x
  rw [hreg x]
  exact ⟨fun hx => absurd hx (he.2 k x), fun hx => by cases hx⟩

/-- Acquiring is mirrored by naming the new holder: nobody had the resource. -/
theorem Acquires.mirrors (ha : Acquires P P' h r) (hs : P.Sound) (hm : P.Mirrors reg)
    (hself : reg' r = some h) (hother : ∀ x, x ≠ r → reg' x = reg x) : P'.Mirrors reg' := by
  intro k x
  rw [ha.2.2 k x]
  by_cases hx : x = r
  · subst hx
    rw [hself]
    constructor
    · rintro (hk | ⟨rfl, -⟩)
      · -- a record from before would mean that it was taken
        exact absurd (hs k x hk) ha.1
      · rfl
    · intro hk
      exact Or.inr ⟨(Option.some.inj hk).symm, rfl⟩
  · rw [hother x hx, ← hm k x]
    exact ⟨fun hk => hk.resolve_right fun h' => hx h'.2, Or.inl⟩

/-- Releasing is mirrored by naming nobody: the register named the holder. -/
theorem Releases.mirrors (hr : Releases P P' h r) (hm : P.Mirrors reg) (hself : reg' r = none)
    (hother : ∀ x, x ≠ r → reg' x = reg x) : P'.Mirrors reg' := by
  intro k x
  rw [hr.2.2 k x]
  by_cases hx : x = r
  · subst hx
    rw [hself]
    constructor
    · rintro ⟨hk, hne⟩
      -- the register named one holder only
      have hsome := (hm h x).mp hr.1
      rw [(hm k x).mp hk] at hsome
      exact absurd ⟨Option.some.inj hsome, rfl⟩ hne
    · intro hk
      cases hk
  · rw [hother x hx, ← hm k x]
    exact ⟨fun hk => hk.1, fun hk => ⟨hk, fun h' => hx h'.2⟩⟩

/-- Replacing is not mirrored by naming the holder for the new resource: the
register of the old one still names it. -/
theorem Replaces.not_mirrors (hr : Replaces P P' h r₀ r) (hs : P.Sound) (hm : P.Mirrors reg)
    (hother : ∀ x, x ≠ r → reg' x = reg x) : ¬P'.Mirrors reg' := by
  intro hm'
  have hne : r₀ ≠ r := by
    rintro rfl
    exact hr.1 (hs h r₀ hr.2.1)
  -- nothing wrote the register of the old resource
  have hold : reg' r₀ = some h := by
    rw [hother r₀ hne]
    exact (hm h r₀).mp hr.2.1
  rcases (hr.2.2.2 h r₀).mp ((hm' h r₀).mpr hold) with ⟨-, hforgot⟩ | ⟨-, heq⟩
  · exact hforgot ⟨rfl, rfl⟩
  · exact hne heq

end Mirrors

end Pool
