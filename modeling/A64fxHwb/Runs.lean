/-
Transition systems: reachable states, invariants, and runs whose steps keep a
side condition.

`ReachableVia C` is what a run reaches when every one of its steps satisfied
`C` in the state it was taken from. With `C` trivial it is plain reachability.
The rule is the induction along a run (`ReachableVia.invariant`), where the new
state may use everything already known of the old one.
-/
import Mathlib.Logic.Relation
import Mathlib.Tactic.Common

set_option autoImplicit false

namespace Runs

/-- States, events, and which state an event may lead to. -/
structure TransitionSystem (σ ε : Type*) where
  init : σ → Prop
  step : σ → ε → σ → Prop

variable {σ ε : Type*}

namespace TransitionSystem

/-- The states reached by runs whose steps all satisfy `C`. -/
inductive ReachableVia (T : TransitionSystem σ ε) (C : σ → ε → Prop) : σ → Prop
  | init {s : σ} : T.init s → ReachableVia T C s
  | step {s s' : σ} {e : ε} : ReachableVia T C s → C s e → T.step s e s' → ReachableVia T C s'

/-- The states reached by any run. -/
abbrev Reachable (T : TransitionSystem σ ε) : σ → Prop := T.ReachableVia fun _ _ => True

variable {T : TransitionSystem σ ε} {C : σ → ε → Prop}

/-- Weakening the side condition. -/
theorem ReachableVia.mono {C' : σ → ε → Prop} (hC : ∀ s e, C s e → C' s e) {s : σ}
    (h : T.ReachableVia C s) : T.ReachableVia C' s := by
  induction h with
  | init hi => exact .init hi
  | step _ hc hs ih => exact .step ih (hC _ _ hc) hs

/-- What a run reaches, another system reaches that has the initial states and the steps. -/
theorem ReachableVia.transfer {T' : TransitionSystem σ ε} {C' : σ → ε → Prop}
    (hinit : ∀ s, T.init s → T'.init s)
    (hstep : ∀ s e s', C s e → T.step s e s' → C' s e ∧ T'.step s e s') {s : σ}
    (h : T.ReachableVia C s) : T'.ReachableVia C' s := by
  induction h with
  | init hi => exact .init (hinit _ hi)
  | step _ hc hs ih =>
      obtain ⟨hc', hs'⟩ := hstep _ _ _ hc hs
      exact .step ih hc' hs'

/-- Dropping the side condition. -/
theorem ReachableVia.reachable {s : σ} (h : T.ReachableVia C s) : T.Reachable s :=
  h.mono fun _ _ _ => trivial

/-- **The invariant rule.** What holds initially and is carried over every step
that satisfies `C` holds of every state such a run reaches. -/
theorem ReachableVia.invariant {P : σ → Prop} (h0 : ∀ s, T.init s → P s)
    (hstep : ∀ s e s', T.ReachableVia C s → P s → C s e → T.step s e s' → P s') {s : σ}
    (h : T.ReachableVia C s) : P s := by
  induction h with
  | init hi => exact h0 _ hi
  | step hr hc hs ih => exact hstep _ _ _ hr ih hc hs

/-! ## History variables

A run can carry along a record of what happened that no step reads. Adding one
does not change what the system can do: forgetting it gives a run of the
original system. -/

/-- The system with a history component that each step updates. -/
def withHistory {γ : Type*} (T : TransitionSystem σ ε) (g₀ : γ) (upd : σ → ε → σ → γ → γ) :
    TransitionSystem (σ × γ) ε where
  init x := T.init x.1 ∧ x.2 = g₀
  step x e y := T.step x.1 e y.1 ∧ y.2 = upd x.1 e y.1 x.2

/-- Forgetting the history. -/
theorem ReachableVia.of_withHistory {γ : Type*} {g₀ : γ} {upd : σ → ε → σ → γ → γ}
    {C' : σ × γ → ε → Prop} (hC : ∀ x e, C' x e → C x.1 e) {x : σ × γ}
    (h : (T.withHistory g₀ upd).ReachableVia C' x) : T.ReachableVia C x.1 := by
  induction h with
  | init hi => exact .init hi.1
  | step _ hc hs ih => exact .step ih (hC _ _ hc) hs.1

/-- Without the history it is a run like any other. -/
theorem ReachableVia.forget {γ : Type*} {g₀ : γ} {upd : σ → ε → σ → γ → γ}
    {C : σ × γ → ε → Prop} {x : σ × γ} (h : (T.withHistory g₀ upd).ReachableVia C x) :
    T.Reachable x.1 :=
  h.of_withHistory fun _ _ _ => trivial

/-- Every run can be recorded. -/
theorem ReachableVia.recorded {γ : Type*} (g₀ : γ) (upd : σ → ε → σ → γ → γ) {s : σ}
    (h : T.ReachableVia C s) :
    ∃ g, (T.withHistory g₀ upd).ReachableVia (fun x e => C x.1 e) (s, g) := by
  induction h with
  | init hi => exact ⟨g₀, .init ⟨hi, rfl⟩⟩
  | @step s s' e _ hc hs ih =>
      obtain ⟨g, hg⟩ := ih
      exact ⟨upd s e s' g, .step hg hc ⟨hs, rfl⟩⟩

end TransitionSystem

/-! ## Two runs side by side

A run is also the list of what labels its steps. Another system can follow it step by
step when the states it is in stay related to those of the run. -/

/-- The steps from one state to another, one for each label. -/
inductive Trace (step : σ → ε → σ → Prop) : σ → List ε → σ → Prop
  | nil (s : σ) : Trace step s [] s
  | cons {s s' t : σ} {e : ε} {es : List ε} :
      step s e s' → Trace step s' es t → Trace step s (e :: es) t

/-- **The lockstep rule.** Related states that can be kept related over every step are
kept related over a run, and the labels are the same. -/
theorem Trace.lockstep {τ : Type*} {step : σ → ε → σ → Prop} {step' : τ → ε → τ → Prop}
    {R : σ → τ → Prop} {s s' : σ} {t : τ} {es : List ε} (h : Trace step s es s') (hR : R s t)
    (hstep : ∀ s t e s', R s t → step s e s' → ∃ t', step' t e t' ∧ R s' t') :
    ∃ t', Trace step' t es t' ∧ R s' t' := by
  induction h generalizing t with
  | nil s => exact ⟨t, .nil t, hR⟩
  | cons hs _ ih =>
      obtain ⟨t₁, ht₁, hR₁⟩ := hstep _ _ _ _ hR hs
      obtain ⟨t', hrun, hR'⟩ := ih hR₁
      exact ⟨t', .cons ht₁ hrun, hR'⟩

/-- **The erasure rule.** A run is also one without the steps that are not in `P`, when the
steps in `P` can be made on the other side too and the others leave that side as it is. The
relation may speak of the steps that are still to come. -/
theorem Trace.erase {τ : Type*} {step : σ → ε → σ → Prop} {step' : τ → ε → τ → Prop}
    {P : ε → Prop} [DecidablePred P] {R : List ε → σ → τ → Prop} {s s' : σ} {t : τ}
    {es : List ε} (h : Trace step s es s') (hR : R es s t)
    (hin : ∀ e es s s' t, R (e :: es) s t → P e → step s e s' → ∃ t', step' t e t' ∧ R es s' t')
    (hout : ∀ e es s s' t, R (e :: es) s t → ¬P e → step s e s' → R es s' t) :
    ∃ t', Trace step' t (es.filter P) t' ∧ R [] s' t' := by
  induction h generalizing t with
  | nil s => exact ⟨t, .nil t, hR⟩
  | @cons s s₁ s' e es hs _ ih =>
      by_cases he : P e
      · obtain ⟨t₁, ht₁, hR₁⟩ := hin e es s s₁ t hR he hs
        obtain ⟨t', hrun, hR'⟩ := ih hR₁
        rw [List.filter_cons_of_pos (by simpa using he)]
        exact ⟨t', .cons ht₁ hrun, hR'⟩
      · obtain ⟨t', hrun, hR'⟩ := ih (hout e es s s₁ t hR he hs)
        rw [List.filter_cons_of_neg (by simpa using he)]
        exact ⟨t', hrun, hR'⟩

end Runs

/-! ## Sequences of small steps

One event of the system is often several small steps of its bookkeeping: the
reflexive and transitive closure of the relation that makes one. -/

namespace Relation.ReflTransGen

variable {σ : Type*} {R : σ → σ → Prop}

/-- What every small step preserves, a sequence of them preserves. -/
theorem preserves {P : σ → Prop} (hstep : ∀ s t, P s → R s t → P t) {s t : σ}
    (h : ReflTransGen R s t) (hs : P s) : P t := by
  induction h with
  | refl => exact hs
  | tail _ hr ih => exact hstep _ _ ih hr

end Relation.ReflTransGen
