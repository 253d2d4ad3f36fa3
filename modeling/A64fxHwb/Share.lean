/-
What one group has of a book, and what it meets of the others.

A group's share is its own leader and its own leases. Nothing another group may do
changes it. The group's own operations can be done in the share alone, and of the others
it meets only what they occupy: the places they have leased, and the seats their leases
have filled.
-/
import A64fxHwb.Lease

set_option autoImplicit false

namespace Leasing

variable {G T P K W : Type*}

/-- Places that are taken, and seats that are. -/
structure Occupied (P K W : Type*) where
  taken : P → Prop
  busy : K → W → Prop

namespace Book

variable [DecidableEq G]

/-- What a book says of group `g`. -/
def share (m : Book G T P K W) (g : G) : Book G T P K W where
  leader g' := if g' = g then m.leader g else none
  lease p := m.leaseOf g p

/-- What the groups other than `g` occupy. -/
def others (m : Book G T P K W) (g : G) : Occupied P K W where
  taken p := ∃ L, m.lease p = some L ∧ L.group ≠ g
  busy k w := ∃ p L, m.lease p = some L ∧ L.group ≠ g ∧ L.seat k = some w

variable {m : Book G T P K W} {g g' : G} {p : P} {L : Lease G K W}

theorem share_empty (g : G) : (Book.empty : Book G T P K W).share g = Book.empty := by
  refine Book.ext (funext fun g' => ?_) rfl
  change (if g' = g then none else none) = none
  rw [ite_self]

theorem leader_share (m : Book G T P K W) (g : G) : (m.share g).leader g = m.leader g :=
  if_pos rfl

theorem leaseOf_eq_none : m.leaseOf g p = none ↔ ∀ L, m.lease p = some L → L.group ≠ g := by
  rw [Option.eq_none_iff_forall_ne_some]
  constructor
  · intro h L hL hg
    exact h L (leaseOf_eq_some.mpr ⟨hL, hg⟩)
  · intro h L hL
    obtain ⟨hlease, hg⟩ := leaseOf_eq_some.mp hL
    exact h L hlease hg

theorem leaseOf_share (m : Book G T P K W) (g : G) (p : P) :
    (m.share g).leaseOf g p = m.leaseOf g p := by
  apply Option.ext
  intro L
  rw [leaseOf_eq_some, show (m.share g).lease p = m.leaseOf g p from rfl]
  constructor
  · intro h
    exact h.1
  · intro h
    exact ⟨h, (leaseOf_eq_some.mp h).2⟩

theorem hasLease_share (m : Book G T P K W) (g : G) : (m.share g).HasLease g ↔ m.HasLease g := by
  unfold HasLease
  simp only [show ∀ p, (m.share g).lease p = m.leaseOf g p from fun _ => rfl, leaseOf_eq_some]
  constructor
  · rintro ⟨p, L, ⟨hL, -⟩, hg⟩
    exact ⟨p, L, hL, hg⟩
  · rintro ⟨p, L, hL, hg⟩
    exact ⟨p, L, ⟨hL, hg⟩, hg⟩

/-- A place is leased to the group, or to others, -/
theorem lease_ne_none (m : Book G T P K W) (g : G) (p : P) :
    m.lease p ≠ none ↔ (m.share g).lease p ≠ none ∨ (m.others g).taken p := by
  rw [Option.ne_none_iff_exists', show (m.share g).lease p = m.leaseOf g p from rfl,
    Option.ne_none_iff_exists']
  simp only [leaseOf_eq_some]
  constructor
  · rintro ⟨L, hL⟩
    by_cases hg : L.group = g
    · exact Or.inl ⟨L, hL, hg⟩
    · exact Or.inr ⟨L, hL, hg⟩
  · rintro (⟨L, hL, -⟩ | ⟨L, hL, -⟩)
    · exact ⟨L, hL⟩
    · exact ⟨L, hL⟩

/-- and a seat is filled by a lease of the group, or by one of others. -/
theorem inUse_share (m : Book G T P K W) (g : G) (k : K) (w : W) :
    m.InUse k w ↔ (m.share g).InUse k w ∨ (m.others g).busy k w := by
  unfold InUse
  simp only [show ∀ p, (m.share g).lease p = m.leaseOf g p from fun _ => rfl, leaseOf_eq_some]
  constructor
  · rintro ⟨p, L, hL, hseat⟩
    by_cases hg : L.group = g
    · exact Or.inl ⟨p, L, ⟨hL, hg⟩, hseat⟩
    · exact Or.inr ⟨p, L, hL, hg, hseat⟩
  · rintro (⟨p, L, ⟨hL, -⟩, hseat⟩ | ⟨p, L, hL, -, hseat⟩)
    · exact ⟨p, L, hL, hseat⟩
    · exact ⟨p, L, hL, hseat⟩

/-! ## The other places of a group -/

section Places

variable [DecidableEq P] {q : P}

theorem leaseOf_grant_self (m : Book G T P K W) (p : P) (L : Lease G K W) :
    (m.grant p L).leaseOf L.group p = some L := by
  rw [leaseOf_eq_some, lease_grant]
  exact ⟨if_pos rfl, rfl⟩

theorem leaseOf_grant_of_ne (m : Book G T P K W) (g : G) (L : Lease G K W) (h : p ≠ q) :
    (m.grant q L).leaseOf g p = m.leaseOf g p := by
  unfold leaseOf
  rw [lease_grant, if_neg h]

theorem leaseOf_revoke_of_ne (m : Book G T P K W) (g : G) (h : p ≠ q) :
    (m.revoke q).leaseOf g p = m.leaseOf g p := by
  unfold leaseOf
  rw [lease_revoke, if_neg h]

theorem leaseOf_withdraw_of_ne [DecidableEq K] (m : Book G T P K W) (g : G) (L : Lease G K W)
    (k : K) (h : p ≠ q) : (m.withdraw q L k).leaseOf g p = m.leaseOf g p := by
  unfold withdraw
  split_ifs
  · exact leaseOf_revoke_of_ne m g h
  · exact leaseOf_grant_of_ne m g _ h
  · rfl

omit [DecidableEq P] in
/-- Only the leader is retired. -/
theorem lease_retire (m : Book G T P K W) (g : G) : (m.retire g).lease = m.lease := by
  unfold retire
  split_ifs
  · rfl
  · rfl

omit [DecidableEq P] in
/-- A group that has a place keeps its leader. -/
theorem retire_of_leaseOf (h : m.leaseOf g p = some L) : m.retire g = m :=
  retire_of_hasLease ⟨p, L, (leaseOf_eq_some.mp h).1, (leaseOf_eq_some.mp h).2⟩

end Places

/-! ## What the group does -/

section Own

theorem share_update (m : Book G T P K W) (g : G) (o : Option T) :
    ({ m with leader := Function.update m.leader g o } : Book G T P K W).share g =
      { m.share g with leader := Function.update (m.share g).leader g o } := by
  refine Book.ext (funext fun g' => ?_) rfl
  unfold share
  simp only [Function.update_apply, if_true]
  by_cases hg : g' = g
  · rw [if_pos hg, if_pos hg]
  · rw [if_neg hg, if_neg hg, if_neg hg]

theorem share_enrol (m : Book G T P K W) (g : G) (t : T) :
    (m.enrol g t).share g = (m.share g).enrol g t := by
  unfold enrol
  rw [share_update, leader_share]

theorem share_retire (m : Book G T P K W) (g : G) :
    (m.retire g).share g = (m.share g).retire g := by
  by_cases hlease : m.HasLease g
  · rw [retire_of_hasLease hlease, retire_of_hasLease ((hasLease_share m g).mpr hlease)]
  · rw [retire_of_not_hasLease hlease,
      retire_of_not_hasLease fun h => hlease ((hasLease_share m g).mp h), share_update]

/-- A group that gives everything back has nothing. -/
theorem share_dissolve (m : Book G T P K W) (g : G) :
    (m.dissolve g).share g = (m.share g).dissolve g := by
  refine Book.ext (funext fun g' => ?_) (funext fun p => ?_)
  · rw [leader_dissolve]
    change (if g' = g then (m.dissolve g).leader g else none) = _
    rw [leader_dissolve, if_pos rfl]
    by_cases hg : g' = g
    · rw [if_pos hg, if_pos hg]
    · rw [if_neg hg, if_neg hg]
      exact (if_neg hg).symm
  · have hnone : ((m.share g).dissolve g).lease p = none := by
      apply Option.filter_eq_none_iff.mpr
      intro L hL
      have hgroup := (leaseOf_eq_some.mp hL).2
      simp only [hgroup, ne_eq, not_true_eq_false, decide_false, Bool.false_eq_true,
        not_false_eq_true]
    rw [hnone]
    apply leaseOf_eq_none.mpr
    intro L hL
    exact of_decide_eq_true (Option.filter_eq_some_iff.mp hL).2

variable [DecidableEq P]

theorem share_grant (m : Book G T P K W) (p : P) (hL : L.group = g) :
    (m.grant p L).share g = (m.share g).grant p L := by
  refine Book.ext rfl (funext fun p' => ?_)
  apply Option.ext
  intro L'
  rw [show ((m.grant p L).share g).lease p' = (m.grant p L).leaseOf g p' from rfl,
    leaseOf_eq_some, lease_grant, lease_grant]
  by_cases hp : p' = p
  · rw [if_pos hp, if_pos hp, Option.some_inj]
    constructor
    · intro h
      exact h.1
    · rintro rfl
      exact ⟨rfl, hL⟩
  · rw [if_neg hp, if_neg hp, ← leaseOf_eq_some]
    rfl

theorem share_revoke (m : Book G T P K W) (g : G) (p : P) :
    (m.revoke p).share g = (m.share g).revoke p := by
  refine Book.ext rfl (funext fun p' => ?_)
  change ((m.revoke p).lease p').filter _ = _
  rw [lease_revoke, lease_revoke]
  by_cases hp : p' = p
  · rw [if_pos hp, if_pos hp, Option.filter_none]
  · rw [if_neg hp, if_neg hp]
    rfl

theorem share_withdraw [DecidableEq K] (m : Book G T P K W) (p : P) (hL : L.group = g) (k : K) :
    (m.withdraw p L k).share g = (m.share g).withdraw p L k := by
  have hwithout : (L.without k).group = g := hL
  unfold withdraw
  split_ifs
  · exact share_revoke m g p
  · exact share_grant m p hwithout
  · rfl

end Own

/-! ## What the others do -/

section Others

variable (hne : g' ≠ g)

include hne

theorem share_update_of_ne (m : Book G T P K W) (o : Option T) :
    ({ m with leader := Function.update m.leader g' o } : Book G T P K W).share g = m.share g := by
  refine Book.ext (funext fun g'' => ?_) rfl
  change (if g'' = g then Function.update m.leader g' o g else none) = _
  rw [Function.update_of_ne hne.symm]
  rfl

theorem share_enrol_of_ne (m : Book G T P K W) (t : T) : (m.enrol g' t).share g = m.share g :=
  share_update_of_ne hne m _

theorem share_retire_of_ne (m : Book G T P K W) : (m.retire g').share g = m.share g := by
  unfold retire
  split_ifs
  · rfl
  · exact share_update_of_ne hne m none

/-- When another group gives everything back, the group keeps its leases. -/
theorem share_dissolve_of_ne (m : Book G T P K W) : (m.dissolve g').share g = m.share g := by
  refine Book.ext (funext fun g'' => ?_) (funext fun p => ?_)
  · change (if g'' = g then (m.dissolve g').leader g else none) = _
    rw [leader_dissolve, if_neg hne.symm]
    rfl
  · apply Option.ext
    intro L
    rw [show ((m.dissolve g').share g).lease p = (m.dissolve g').leaseOf g p from rfl,
      show (m.share g).lease p = m.leaseOf g p from rfl, leaseOf_eq_some, leaseOf_eq_some,
      show (m.dissolve g').lease p = (m.lease p).filter fun L => decide (L.group ≠ g') from rfl,
      Option.filter_eq_some_iff, decide_eq_true_eq]
    constructor
    · rintro ⟨⟨hL, -⟩, hg⟩
      exact ⟨hL, hg⟩
    · rintro ⟨hL, hg⟩
      exact ⟨⟨hL, fun h => hne (h.symm.trans hg)⟩, hg⟩

omit hne

variable [DecidableEq P] (hp : m.leaseOf g p = none)

include hp

/-- A place the group does not have may be leased to another, -/
theorem share_grant_of_ne (hL : L.group ≠ g) : (m.grant p L).share g = m.share g := by
  refine Book.ext rfl (funext fun p' => ?_)
  change ((m.grant p L).lease p').filter _ = m.leaseOf g p'
  rw [lease_grant]
  by_cases hp' : p' = p
  · rw [if_pos hp', hp', hp]
    exact Option.filter_some_neg (by rwa [decide_eq_false_iff_not])
  · rw [if_neg hp']
    rfl

/-- or given back. -/
theorem share_revoke_of_ne : (m.revoke p).share g = m.share g := by
  refine Book.ext rfl (funext fun p' => ?_)
  change ((m.revoke p).lease p').filter _ = m.leaseOf g p'
  rw [lease_revoke]
  by_cases hp' : p' = p
  · rw [if_pos hp', hp', hp, Option.filter_none]
  · rw [if_neg hp']
    rfl

theorem share_withdraw_of_ne [DecidableEq K] (hL : L.group ≠ g) (k : K) :
    (m.withdraw p L k).share g = m.share g := by
  have hwithout : (L.without k).group ≠ g := hL
  unfold withdraw
  split_ifs
  · exact share_revoke_of_ne hp
  · exact share_grant_of_ne hp hwithout
  · rfl

end Others

end Book

end Leasing
