/-
A barrier made of one bit for each party and one bit for all.

Each party shows a bit, and the barrier has a bit of its own, its sense, which becomes
`v` when all parties show `v`. A party that comes to the barrier looks at the sense,
shows the other value, and goes on once the sense is what it shows. No bit is ever
reset, so a party may come round to the barrier again while another has not yet left it.

How often each party has arrived and passed is kept as history. The invariant is relative
to the number of rounds that have been settled, and says for each stage of a party how
often it has arrived and passed by then (`Fits`).
-/
import Mathlib.Data.Nat.Bits
import Mathlib.Logic.Function.Basic
import Mathlib.Tactic.Common

set_option autoImplicit false

namespace Barrier

variable {P : Type*}

/-! ## The parties and the barrier -/

/-- What a party is doing. -/
inductive Stage
  | working
  /-- It has looked at the sense and is about to show the value. -/
  | ready (v : Bool)
  /-- It has shown the value. -/
  | waiting (v : Bool)
  deriving DecidableEq

/-- The parties, with how often each has arrived at the barrier and passed it. -/
structure Team (P : Type*) where
  stage : P → Stage
  arrivals : P → ℕ
  passes : P → ℕ

/-- The barrier with its parties. -/
structure State (P : Type*) where
  team : Team P
  bit : P → Bool
  sense : Bool

/-- Nobody has come to the barrier yet. -/
def Team.start : Team P where
  stage _ := .working
  arrivals _ := 0
  passes _ := 0

section Steps

variable [DecidableEq P]

/-- Party `p` has seen the sense `v`. -/
def Team.looked (t : Team P) (p : P) (v : Bool) : Team P :=
  { t with stage := Function.update t.stage p (.ready (!v)) }

/-- Party `p` has shown `v`. -/
def Team.arrived (t : Team P) (p : P) (v : Bool) : Team P :=
  { t with
    stage := Function.update t.stage p (.waiting v)
    arrivals := Function.update t.arrivals p (t.arrivals p + 1) }

/-- Party `p` goes on. -/
def Team.passed (t : Team P) (p : P) : Team P :=
  { t with
    stage := Function.update t.stage p .working
    passes := Function.update t.passes p (t.passes p + 1) }

@[simp] theorem Team.stage_looked (t : Team P) (p : P) (v : Bool) :
    (t.looked p v).stage p = .ready (!v) :=
  Function.update_self _ _ _

@[simp] theorem Team.stage_arrived (t : Team P) (p : P) (v : Bool) :
    (t.arrived p v).stage p = .waiting v :=
  Function.update_self _ _ _

@[simp] theorem Team.stage_passed (t : Team P) (p : P) : (t.passed p).stage p = .working :=
  Function.update_self _ _ _

/-- One step of a party, or of the barrier. -/
inductive Step (s : State P) : State P → Prop
  | look (p : P) (h : s.team.stage p = .working) :
      Step s { s with team := s.team.looked p s.sense }
  | arrive (p : P) (v : Bool) (h : s.team.stage p = .ready v) :
      Step s { s with team := s.team.arrived p v, bit := Function.update s.bit p v }
  | settle (v : Bool) (h : ∀ p, s.bit p = v) : Step s { s with sense := v }
  | pass (p : P) (h : s.team.stage p = .waiting s.sense) :
      Step s { s with team := s.team.passed p }

end Steps

/-! ## The invariant -/

/-- Where a party can be when `n` rounds have been settled. -/
def Fits (n arrivals passes : ℕ) : Stage → Prop
  | .working => arrivals = n ∧ passes = n
  | .ready v => arrivals = n ∧ passes = n ∧ v = (n + 1).bodd
  | .waiting v => arrivals = passes + 1 ∧ (arrivals = n ∨ arrivals = n + 1) ∧ v = arrivals.bodd

/-- `n` rounds have been settled. -/
structure InRound (n : ℕ) (s : State P) : Prop where
  sense : s.sense = n.bodd
  bit : ∀ p, s.bit p = (s.team.arrivals p).bodd
  fits : ∀ p, Fits n (s.team.arrivals p) (s.team.passes p) (s.team.stage p)

theorem bodd_succ_ne (n : ℕ) : (n + 1).bodd ≠ n.bodd := by
  rw [Nat.bodd_succ]
  exact fun h => (Bool.not_eq_self _).mp h

namespace Fits

variable {n a k : ℕ} {st : Stage} {v : Bool}

/-- and has arrived as often, or once more. -/
theorem arrivals_mem (h : Fits n a k st) : a = n ∨ a = n + 1 := by
  cases st with
  | working => exact Or.inl h.1
  | ready v => exact Or.inl h.1
  | waiting v => exact h.2.1

/-- A party that waits at a barrier that is settled may pass, -/
theorem pass (h : Fits n a k (.waiting v)) (hv : v = n.bodd) : Fits n a (k + 1) .working := by
  obtain ⟨ha, hn, hbit⟩ := h
  -- it has not arrived at the next one
  have hne : a ≠ n + 1 := by
    rintro rfl
    exact bodd_succ_ne n (hbit.symm.trans hv)
  have hn' := hn.resolve_right hne
  exact ⟨hn', by omega⟩

/-- and when all show the bit of the next round, all are waiting for it. -/
theorem settle (h : Fits n a k st) (ha : a.bodd = (n + 1).bodd) : Fits (n + 1) a k st := by
  have hne : a ≠ n := by
    rintro rfl
    exact bodd_succ_ne a ha.symm
  have hnext := h.arrivals_mem.resolve_left hne
  cases st with
  | working => exact absurd h.1 hne
  | ready v => exact absurd h.1 hne
  | waiting v => exact ⟨h.1, Or.inl hnext, h.2.2⟩

end Fits

/-- Only the party that moves has to be looked at. -/
theorem fits_of_moved {n : ℕ} {t t' : Team P} {p : P}
    (h : ∀ q, Fits n (t.arrivals q) (t.passes q) (t.stage q))
    (hp : Fits n (t'.arrivals p) (t'.passes p) (t'.stage p))
    (hne : ∀ q, q ≠ p → t'.arrivals q = t.arrivals q ∧ t'.passes q = t.passes q ∧
      t'.stage q = t.stage q) (q : P) : Fits n (t'.arrivals q) (t'.passes q) (t'.stage q) := by
  by_cases hqp : q = p
  · rw [hqp]
    exact hp
  · obtain ⟨ha, hk, hs⟩ := hne q hqp
    rw [ha, hk, hs]
    exact h q

section Preservation

variable [DecidableEq P] {n : ℕ} {s s' : State P}

/-- **A step stays in its round, or settles the next one.** -/
theorem InRound.step (h : InRound n s) (hs : Step s s') : InRound n s' ∨ InRound (n + 1) s' := by
  cases hs with
  | look p hp =>
      have hfits := h.fits p
      rw [hp] at hfits
      refine Or.inl ⟨h.sense, h.bit, fits_of_moved h.fits (p := p) ?_ fun q hq => ?_⟩
      · rw [Team.stage_looked]
        refine ⟨hfits.1, hfits.2, ?_⟩
        rw [h.sense, Nat.bodd_succ]
      · exact ⟨rfl, rfl, Function.update_of_ne hq _ _⟩
  | arrive p v hp =>
      have hfits := h.fits p
      rw [hp] at hfits
      obtain ⟨ha, hk, hv⟩ := hfits
      refine Or.inl ⟨h.sense, fun q => ?_, fits_of_moved h.fits (p := p) ?_ fun q hq => ?_⟩
      · -- it shows the parity of its arrivals
        by_cases hq : q = p
        · subst hq
          simp only [Team.arrived, Function.update_self]
          rw [hv, ha]
        · simp only [Team.arrived, Function.update_of_ne hq]
          exact h.bit q
      · rw [Team.stage_arrived]
        simp only [Team.arrived, Function.update_self]
        refine ⟨by omega, Or.inr (by omega), ?_⟩
        rw [hv, ha]
      · exact ⟨Function.update_of_ne hq _ _, rfl, Function.update_of_ne hq _ _⟩
  | settle v hv =>
      by_cases hold : v = n.bodd
      · exact Or.inl ⟨hold, h.bit, h.fits⟩
      · -- everybody shows the bit of the next round
        have hnext : v = (n + 1).bodd := by
          rw [Nat.bodd_succ]
          exact Bool.eq_not.mpr hold
        refine Or.inr ⟨hnext, h.bit, fun q => (h.fits q).settle ?_⟩
        rw [← h.bit q, hv q, hnext]
  | pass p hp =>
      have hfits := h.fits p
      rw [hp] at hfits
      refine Or.inl ⟨h.sense, h.bit, fits_of_moved h.fits (p := p) ?_ fun q hq => ?_⟩
      · rw [Team.stage_passed]
        simp only [Team.passed, Function.update_self]
        exact hfits.pass h.sense
      · exact ⟨rfl, Function.update_of_ne hq _ _, Function.update_of_ne hq _ _⟩

end Preservation

/-! ## What a barrier is for -/

section Results

variable {n : ℕ} {s : State P}

end Results

end Barrier
