/-
Leases: places that are handed out to groups, with seats for the members.

A `Book` is what a manager of such places knows: who leads each group, and what is
leased. A lease names the group that has the place, the members that take part, and
the seat of each member that has one. Seats belong to the members, not to the places:
`InUse k w` says that member `k` has taken seat `w` at one of the places.

The operations are the ones such a manager offers. Groups, threads, places, members
and seats are of any type.
-/
import Mathlib.Data.Set.Basic
import Mathlib.Data.List.Basic
import Mathlib.Data.List.Range
import Mathlib.Logic.Function.Basic
import Mathlib.Logic.Relation
import Mathlib.Tactic.Common

set_option autoImplicit false

namespace Leasing

/-- What a group has of one place. -/
@[ext] structure Lease (G K W : Type*) where
  group : G
  members : Set K
  seat : K → Option W

/-- Who leads each group, and what is leased. -/
@[ext] structure Book (G T P K W : Type*) where
  leader : G → Option T
  lease : P → Option (Lease G K W)

variable {G T P K W : Type*}

/-! ## One lease -/

namespace Lease

variable [DecidableEq K]

/-- Member `k` has the seat `o` from now on, or none. -/
def seated (L : Lease G K W) (k : K) (o : Option W) : Lease G K W :=
  { L with seat := Function.update L.seat k o }

/-- Member `k` takes no part any more, and its seat is given back. -/
def without (L : Lease G K W) (k : K) : Lease G K W :=
  { L with
    members := L.members \ {k}
    seat := Function.update L.seat k none }

theorem seat_seated (L : Lease G K W) (k : K) (o : Option W) (k' : K) :
    (L.seated k o).seat k' = if k' = k then o else L.seat k' :=
  Function.update_apply L.seat k o k'

theorem seat_without (L : Lease G K W) (k k' : K) :
    (L.without k).seat k' = if k' = k then none else L.seat k' :=
  Function.update_apply L.seat k none k'

end Lease

namespace Book

/-! ## What is asked of a book -/

/-- Nothing is leased, and nobody leads a group. -/
def empty : Book G T P K W := ⟨fun _ => none, fun _ => none⟩

/-- The group has a place. -/
def HasLease (m : Book G T P K W) (g : G) : Prop := ∃ p L, m.lease p = some L ∧ L.group = g

/-- Member `k` has taken seat `w` at one of the places. -/
def InUse (m : Book G T P K W) (k : K) (w : W) : Prop :=
  ∃ p L, m.lease p = some L ∧ L.seat k = some w

/-! ## Groups -/

section Groups

variable [DecidableEq G]

/-- The place, if it is leased to the group. -/
def leaseOf (m : Book G T P K W) (g : G) (p : P) : Option (Lease G K W) :=
  (m.lease p).filter fun L => decide (L.group = g)

/-- The thread leads the group, unless somebody does already. -/
def enrol (m : Book G T P K W) (g : G) (t : T) : Book G T P K W :=
  { m with leader := Function.update m.leader g (some ((m.leader g).getD t)) }

open Classical in
/-- A group that has no place left loses its leader. -/
noncomputable def retire (m : Book G T P K W) (g : G) : Book G T P K W :=
  if m.HasLease g then m else { m with leader := Function.update m.leader g none }

/-- The group gives everything back. -/
def dissolve (m : Book G T P K W) (g : G) : Book G T P K W where
  leader := Function.update m.leader g none
  lease p := (m.lease p).filter fun L => decide (L.group ≠ g)

variable {m : Book G T P K W} {g : G}

theorem leaseOf_eq_some {p : P} {L : Lease G K W} :
    m.leaseOf g p = some L ↔ m.lease p = some L ∧ L.group = g := by
  rw [leaseOf, Option.filter_eq_some_iff, decide_eq_true_eq]

theorem leader_enrol (m : Book G T P K W) (g : G) (t : T) (g' : G) :
    (m.enrol g t).leader g' = if g' = g then some ((m.leader g).getD t) else m.leader g' :=
  Function.update_apply m.leader g (some ((m.leader g).getD t)) g'

theorem leader_dissolve (m : Book G T P K W) (g g' : G) :
    (m.dissolve g).leader g' = if g' = g then none else m.leader g' :=
  Function.update_apply m.leader g none g'

/-- A group with a leader is enrolled already. -/
theorem enrol_of_leader {t t' : T} (h : m.leader g = some t') : m.enrol g t = m := by
  unfold enrol
  rw [h, Option.getD_some, ← h, Function.update_eq_self]

theorem retire_of_hasLease (h : m.HasLease g) : m.retire g = m := by
  unfold retire
  exact if_pos h

theorem retire_of_not_hasLease (h : ¬m.HasLease g) :
    m.retire g = { m with leader := Function.update m.leader g none } := by
  unfold retire
  exact if_neg h

end Groups

/-! ## Places -/

section Places

variable [DecidableEq P]

/-- The place is leased. -/
def grant (m : Book G T P K W) (p : P) (L : Lease G K W) : Book G T P K W :=
  { m with lease := Function.update m.lease p (some L) }

/-- The place is given back. -/
def revoke (m : Book G T P K W) (p : P) : Book G T P K W :=
  { m with lease := Function.update m.lease p none }

open Classical in
/-- Member `k` leaves the lease `L` of the place, which is given back with the last
member. -/
noncomputable def withdraw [DecidableEq K] (m : Book G T P K W) (p : P) (L : Lease G K W) (k : K) :
    Book G T P K W :=
  if k ∈ L.members then
    if (L.without k).members = ∅ then m.revoke p else m.grant p (L.without k)
  else m

theorem lease_grant (m : Book G T P K W) (p : P) (L : Lease G K W) (p' : P) :
    (m.grant p L).lease p' = if p' = p then some L else m.lease p' :=
  Function.update_apply m.lease p (some L) p'

theorem lease_revoke (m : Book G T P K W) (p p' : P) :
    (m.revoke p).lease p' = if p' = p then none else m.lease p' :=
  Function.update_apply m.lease p none p'

/-- A member may give its seat back before it leaves. -/
theorem withdraw_seated [DecidableEq K] (m : Book G T P K W) (p : P) {L : Lease G K W} {k : K}
    (hk : k ∈ L.members) :
    (m.grant p (L.seated k none)).withdraw p (L.seated k none) k = m.withdraw p L k := by
  have hwithout : (L.seated k none).without k = L.without k := by
    unfold Lease.seated Lease.without
    simp only [Function.update_idem]
  have hrevoke : (m.grant p (L.seated k none)).revoke p = m.revoke p := by
    unfold grant revoke
    simp only [Function.update_idem]
  have hgrant : (m.grant p (L.seated k none)).grant p (L.without k) = m.grant p (L.without k) := by
    unfold grant
    simp only [Function.update_idem]
  have hk' : k ∈ (L.seated k none).members := hk
  unfold withdraw
  rw [if_pos hk, if_pos hk', hwithout, hrevoke, hgrant]

/-- The group of a lease has a lease. -/
theorem hasLease_grant (m : Book G T P K W) (p : P) (L : Lease G K W) :
    (m.grant p L).HasLease L.group :=
  ⟨p, L, by rw [lease_grant, if_pos rfl], rfl⟩

end Places

/-! ## What holds of each lease -/

/-- Every lease is as `good` says. -/
def Each (good : P → Lease G K W → Prop) (m : Book G T P K W) : Prop :=
  ∀ p L, m.lease p = some L → good p L

section Each

variable {good : P → Lease G K W → Prop} {m : Book G T P K W}

theorem Each.empty : Each good (Book.empty : Book G T P K W) := by
  intro p L h
  cases h

theorem Each.enrol [DecidableEq G] (h : Each good m) (g : G) (t : T) : Each good (m.enrol g t) :=
  h

theorem Each.retire [DecidableEq G] (h : Each good m) (g : G) : Each good (m.retire g) := by
  unfold Book.retire
  split_ifs
  · exact h
  · exact h

theorem Each.dissolve [DecidableEq G] (h : Each good m) (g : G) : Each good (m.dissolve g) := by
  intro p L hL
  exact h p L (Option.filter_eq_some_iff.mp hL).1

theorem Each.grant [DecidableEq P] (h : Each good m) {p : P} {L : Lease G K W} (hL : good p L) :
    Each good (m.grant p L) := by
  intro p' L' hL'
  rw [lease_grant] at hL'
  by_cases hp : p' = p
  · rw [if_pos hp, Option.some_inj] at hL'
    rw [hp, ← hL']
    exact hL
  · rw [if_neg hp] at hL'
    exact h p' L' hL'

theorem Each.revoke [DecidableEq P] (h : Each good m) (p : P) : Each good (m.revoke p) := by
  intro p' L' hL'
  rw [lease_revoke] at hL'
  by_cases hp : p' = p
  · rw [if_pos hp] at hL'
    cases hL'
  · rw [if_neg hp] at hL'
    exact h p' L' hL'

theorem Each.withdraw [DecidableEq P] [DecidableEq K] (h : Each good m) {p : P}
    {L : Lease G K W} {k : K} (hL : good p (L.without k)) : Each good (m.withdraw p L k) := by
  unfold Book.withdraw
  split_ifs
  · exact h.revoke p
  · exact h.grant hL
  · exact h

end Each

/-! ## A part of a book

The groups of `S` and the places of `Q` are a part of their own when the groups of `S`
have leases in `Q` and nowhere else, and no other group has one there. What the groups
of `S` do is then done in their part, and what the others do leaves it as it is. -/

open Classical in
/-- What a book says of the groups of `S` and the places of `Q`. -/
noncomputable def within (m : Book G T P K W) (S : Set G) (Q : Set P) : Book G T P K W where
  leader g := if g ∈ S then m.leader g else none
  lease p := if p ∈ Q then m.lease p else none

/-- A lease of a place of `Q` is one of a group of `S`. -/
def Apart (S : Set G) (Q : Set P) (p : P) (L : Lease G K W) : Prop := L.group ∈ S ↔ p ∈ Q

section Within

variable {m : Book G T P K W} {S : Set G} {Q : Set P} {g : G} {p : P} {L : Lease G K W}

theorem within_empty : (Book.empty : Book G T P K W).within S Q = Book.empty := by
  unfold within Book.empty
  simp only [ite_self]

theorem leader_within (hg : g ∈ S) : (m.within S Q).leader g = m.leader g := if_pos hg

theorem leader_within_of_notMem (hg : g ∉ S) : (m.within S Q).leader g = none := if_neg hg

theorem lease_within (hp : p ∈ Q) : (m.within S Q).lease p = m.lease p := if_pos hp

theorem lease_within_of_notMem (hp : p ∉ Q) : (m.within S Q).lease p = none := if_neg hp

theorem lease_within_eq_some : (m.within S Q).lease p = some L ↔ p ∈ Q ∧ m.lease p = some L := by
  unfold within
  by_cases hp : p ∈ Q
  · simp only [hp, if_true, true_and]
  · simp only [hp, if_false, false_and, reduceCtorEq]

/-- A group of the part has the same leases in it. -/
theorem leaseOf_within [DecidableEq G] (h : m.Each (Apart S Q)) (hg : g ∈ S) (p : P) :
    (m.within S Q).leaseOf g p = m.leaseOf g p := by
  apply Option.ext
  intro L
  rw [leaseOf_eq_some, leaseOf_eq_some, lease_within_eq_some]
  constructor
  · rintro ⟨⟨-, hL⟩, hgroup⟩
    exact ⟨hL, hgroup⟩
  · rintro ⟨hL, hgroup⟩
    exact ⟨⟨(h p L hL).mp (hgroup ▸ hg), hL⟩, hgroup⟩

theorem hasLease_within (h : m.Each (Apart S Q)) (hg : g ∈ S) :
    (m.within S Q).HasLease g ↔ m.HasLease g := by
  unfold HasLease
  simp only [lease_within_eq_some]
  constructor
  · rintro ⟨p, L, ⟨-, hL⟩, hgroup⟩
    exact ⟨p, L, hL, hgroup⟩
  · rintro ⟨p, L, hL, hgroup⟩
    exact ⟨p, L, ⟨(h p L hL).mp (hgroup ▸ hg), hL⟩, hgroup⟩

/-- A member that sits in the part alone has the same seats in it. -/
theorem inUse_within {k : K} (h : ∀ p L, m.lease p = some L → L.seat k ≠ none → p ∈ Q) (w : W) :
    (m.within S Q).InUse k w ↔ m.InUse k w := by
  unfold InUse
  simp only [lease_within_eq_some]
  constructor
  · rintro ⟨p, L, ⟨-, hL⟩, hseat⟩
    exact ⟨p, L, hL, hseat⟩
  · rintro ⟨p, L, hL, hseat⟩
    exact ⟨p, L, ⟨h p L hL (by rw [hseat]; exact Option.some_ne_none w), hL⟩, hseat⟩

section Group

variable [DecidableEq G]

/-- A change of a leader in the part, -/
theorem within_update (hg : g ∈ S) (o : Option T) :
    ({ m with leader := Function.update m.leader g o } : Book G T P K W).within S Q =
      { m.within S Q with leader := Function.update (m.within S Q).leader g o } := by
  refine Book.ext (funext fun g' => ?_) rfl
  unfold within
  simp only [Function.update_apply]
  by_cases hg' : g' = g
  · rw [if_pos hg', if_pos (hg' ▸ hg), if_pos hg']
  · simp only [if_neg hg']

/-- and outside of it. -/
theorem within_update_of_notMem (hg : g ∉ S) (o : Option T) :
    ({ m with leader := Function.update m.leader g o } : Book G T P K W).within S Q =
      m.within S Q := by
  refine Book.ext (funext fun g' => ?_) rfl
  unfold within
  by_cases hg' : g' ∈ S
  · have hne : g' ≠ g := fun h => hg (h ▸ hg')
    simp only [if_pos hg', Function.update_of_ne hne]
  · simp only [if_neg hg']

theorem within_enrol (hg : g ∈ S) (t : T) :
    (m.enrol g t).within S Q = (m.within S Q).enrol g t := by
  unfold enrol
  rw [within_update hg, leader_within hg]

theorem within_enrol_of_notMem (hg : g ∉ S) (t : T) : (m.enrol g t).within S Q = m.within S Q := by
  unfold enrol
  rw [within_update_of_notMem hg]

theorem within_retire (h : m.Each (Apart S Q)) (hg : g ∈ S) :
    (m.retire g).within S Q = (m.within S Q).retire g := by
  by_cases hlease : m.HasLease g
  · rw [retire_of_hasLease hlease, retire_of_hasLease ((hasLease_within h hg).mpr hlease)]
  · rw [retire_of_not_hasLease hlease,
      retire_of_not_hasLease fun h' => hlease ((hasLease_within h hg).mp h'), within_update hg]

theorem within_retire_of_notMem (hg : g ∉ S) : (m.retire g).within S Q = m.within S Q := by
  by_cases hlease : m.HasLease g
  · rw [retire_of_hasLease hlease]
  · rw [retire_of_not_hasLease hlease, within_update_of_notMem hg]

theorem within_dissolve (hg : g ∈ S) :
    (m.dissolve g).within S Q = (m.within S Q).dissolve g := by
  refine Book.ext (funext fun g' => ?_) (funext fun p => ?_)
  · rw [leader_dissolve]
    by_cases hg' : g' ∈ S
    · rw [leader_within hg', leader_within hg', leader_dissolve]
    · have hne : g' ≠ g := fun h => hg' (h ▸ hg)
      rw [if_neg hne, leader_within_of_notMem hg', leader_within_of_notMem hg']
  · change _ = ((m.within S Q).lease p).filter _
    by_cases hp : p ∈ Q
    · rw [lease_within hp, lease_within hp]
      rfl
    · rw [lease_within_of_notMem hp, lease_within_of_notMem hp, Option.filter_none]

theorem within_dissolve_of_notMem (h : m.Each (Apart S Q)) (hg : g ∉ S) :
    (m.dissolve g).within S Q = m.within S Q := by
  refine Book.ext (funext fun g' => ?_) (funext fun p => ?_)
  · by_cases hg' : g' ∈ S
    · have hne : g' ≠ g := fun h => hg (h ▸ hg')
      rw [leader_within hg', leader_within hg', leader_dissolve, if_neg hne]
    · rw [leader_within_of_notMem hg', leader_within_of_notMem hg']
  · by_cases hp : p ∈ Q
    · rw [lease_within hp, lease_within hp]
      -- the leases of the part are of other groups
      apply Option.ext
      intro L
      change (m.lease p).filter _ = some L ↔ _
      rw [Option.filter_eq_some_iff, decide_eq_true_eq]
      constructor
      · exact fun hL => hL.1
      · intro hL
        have hgroup : L.group ∈ S := (h p L hL).mpr hp
        exact ⟨hL, fun h' => hg (h' ▸ hgroup)⟩
    · rw [lease_within_of_notMem hp, lease_within_of_notMem hp]

end Group

section Place

variable [DecidableEq P]

/-- A change of a place in the part, -/
theorem within_update_lease (hp : p ∈ Q) (o : Option (Lease G K W)) :
    ({ m with lease := Function.update m.lease p o } : Book G T P K W).within S Q =
      { m.within S Q with lease := Function.update (m.within S Q).lease p o } := by
  refine Book.ext rfl (funext fun p' => ?_)
  unfold within
  simp only [Function.update_apply]
  by_cases hp' : p' = p
  · rw [if_pos hp', if_pos (hp' ▸ hp), if_pos hp']
  · simp only [if_neg hp']

/-- and outside of it. -/
theorem within_update_lease_of_notMem (hp : p ∉ Q) (o : Option (Lease G K W)) :
    ({ m with lease := Function.update m.lease p o } : Book G T P K W).within S Q =
      m.within S Q := by
  refine Book.ext rfl (funext fun p' => ?_)
  unfold within
  by_cases hp' : p' ∈ Q
  · have hne : p' ≠ p := fun h => hp (h ▸ hp')
    simp only [if_pos hp', Function.update_of_ne hne]
  · simp only [if_neg hp']

theorem within_grant (hp : p ∈ Q) : (m.grant p L).within S Q = (m.within S Q).grant p L := by
  unfold grant
  rw [within_update_lease hp]

theorem within_grant_of_notMem (hp : p ∉ Q) : (m.grant p L).within S Q = m.within S Q := by
  unfold grant
  rw [within_update_lease_of_notMem hp]

theorem within_revoke (hp : p ∈ Q) : (m.revoke p).within S Q = (m.within S Q).revoke p := by
  unfold revoke
  rw [within_update_lease hp]

theorem within_revoke_of_notMem (hp : p ∉ Q) : (m.revoke p).within S Q = m.within S Q := by
  unfold revoke
  rw [within_update_lease_of_notMem hp]

theorem within_withdraw [DecidableEq K] (hp : p ∈ Q) (k : K) :
    (m.withdraw p L k).within S Q = (m.within S Q).withdraw p L k := by
  unfold withdraw
  split_ifs
  · exact within_revoke hp
  · exact within_grant hp
  · rfl

end Place

end Within

/-! ## What one group does -/

section Act

variable [DecidableEq G] [DecidableEq P] {good : P → Lease G K W → Prop} {g : G}

/-- What group `g` can do to a book whose leases are `good`. It gives back only what it can
have a lease of. -/
inductive Act (good : P → Lease G K W → Prop) (g : G) : Book G T P K W → Book G T P K W → Prop
  | enrol (m : Book G T P K W) (t : T) : Act good g m (m.enrol g t)
  | retire (m : Book G T P K W) : Act good g m (m.retire g)
  | dissolve (m : Book G T P K W) : Act good g m (m.dissolve g)
  | grant (m : Book G T P K W) {p : P} {L : Lease G K W} (hL : good p L) (hg : L.group = g) :
      Act good g m (m.grant p L)
  | revoke (m : Book G T P K W) {p : P} {L : Lease G K W} (hL : good p L) (hg : L.group = g) :
      Act good g m (m.revoke p)

variable {m m' : Book G T P K W}

theorem Act.each (h : Act good g m m') (hm : m.Each good) : m'.Each good := by
  cases h with
  | enrol t => exact hm.enrol g t
  | retire => exact hm.retire g
  | dissolve => exact hm.dissolve g
  | grant hL _ => exact hm.grant hL
  | revoke _ _ => exact hm.revoke _

/-- A group outside of the part does nothing in it. -/
theorem Act.within {S : Set G} {Q : Set P} (hgood : ∀ p L, good p L → Apart S Q p L) (hg : g ∉ S)
    (hm : m.Each good) (h : Act good g m m') : m'.within S Q = m.within S Q := by
  have hplace : ∀ {p L}, good p L → L.group = g → p ∉ Q := by
    intro p L hL hgroup hp
    have hmem := (hgood p L hL).mpr hp
    exact hg (hgroup ▸ hmem)
  cases h with
  | enrol t => exact within_enrol_of_notMem hg t
  | retire => exact within_retire_of_notMem hg
  | dissolve => exact within_dissolve_of_notMem (fun p L hL => hgood p L (hm p L hL)) hg
  | grant hL hgroup => exact within_grant_of_notMem (hplace hL hgroup)
  | revoke hL hgroup => exact within_revoke_of_notMem (hplace hL hgroup)

/-- Leaving a lease is granting it again without the member, or giving it back. -/
theorem acts_withdraw [DecidableEq K] (m : Book G T P K W) {p : P} {L : Lease G K W} {k : K}
    (hL : good p (L.without k)) (hg : L.group = g) :
    Relation.ReflTransGen (Act good g) m (m.withdraw p L k) := by
  unfold withdraw
  split_ifs
  · exact .single (.revoke m hL hg)
  · exact .single (.grant m hL hg)
  · exact .refl

theorem acts_each (hm : m.Each good) (h : Relation.ReflTransGen (Act good g) m m') :
    m'.Each good := by
  induction h with
  | refl => exact hm
  | tail _ hact ih => exact hact.each ih

theorem acts_within {S : Set G} {Q : Set P} (hgood : ∀ p L, good p L → Apart S Q p L)
    (hg : g ∉ S) (hm : m.Each good) (h : Relation.ReflTransGen (Act good g) m m') :
    m'.within S Q = m.within S Q := by
  induction h with
  | refl => rfl
  | tail hrun hact ih => rw [hact.within hgood hg (acts_each hm hrun), ih]

end Act

end Book

/-! ## The lowest number that is free -/

open Classical in
/-- The lowest number below `n` that is not taken. -/
noncomputable def lowestFree (taken : ℕ → Prop) (n : ℕ) : Option ℕ :=
  (List.range n).find? fun b => decide (¬taken b)

section LowestFree

variable {taken taken' : ℕ → Prop} {n b : ℕ}

theorem lowestFree_eq_some : lowestFree taken n = some b ↔
    ¬taken b ∧ b < n ∧ ∀ b' < b, taken b' := by
  unfold lowestFree
  rw [List.find?_range_eq_some]
  simp only [decide_eq_true_eq, List.mem_range, Bool.not_eq_eq_eq_not, Bool.not_true,
    decide_eq_false_iff_not, not_not]

theorem lowestFree_eq_none : lowestFree taken n = none ↔ ∀ b < n, taken b := by
  unfold lowestFree
  rw [List.find?_eq_none]
  simp only [List.mem_range, decide_eq_true_eq, not_not]

/-- Only the numbers below the bound are looked at. -/
theorem lowestFree_congr (h : ∀ b < n, taken b ↔ taken' b) :
    lowestFree taken n = lowestFree taken' n := by
  cases hf : lowestFree taken' n with
  | none =>
      rw [lowestFree_eq_none] at hf ⊢
      exact fun b hb => (h b hb).mpr (hf b hb)
  | some b =>
      rw [lowestFree_eq_some] at hf ⊢
      obtain ⟨hfree, hb, hlow⟩ := hf
      exact ⟨fun ht => hfree ((h b hb).mp ht), hb,
        fun b' hb' => (h b' (by omega)).mpr (hlow b' hb')⟩

end LowestFree

end Leasing
