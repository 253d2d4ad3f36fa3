/-
Loop rules for `List.foldl` and `List.foldlM` over `Except`.

A counting `for` loop is a fold over `List.range n`, a walk of a linked list is
a fold over the list, and a body that can fail makes the fold monadic. Each rule
takes an invariant indexed by what is left (or by how far the loop has come) and
one step lemma, and gives the invariant after the last iteration together with
the fact that the loop gets there.
-/
import Mathlib.Tactic.Common

set_option autoImplicit false

namespace Loops

universe u

variable {σ α ε : Type*}

/-! ## One step -/

section Bind

variable {β γ : Type u}

/-- A computation that succeeds with `r` is a first step that succeeds and a rest
that succeeds with `r`. -/
theorem bind_eq_ok {x : Except ε β} {f : β → Except ε γ} {r : γ} :
    (x >>= f) = .ok r ↔ ∃ a, x = .ok a ∧ f a = .ok r := by
  constructor
  · intro h
    cases x with
    | error e => cases h
    | ok a => exact ⟨a, rfl, h⟩
  · rintro ⟨a, rfl, h⟩
    exact h

/-- The same for a result that is changed afterwards. -/
theorem map_eq_ok {x : Except ε β} {f : β → γ} {r : γ} :
    x.map f = .ok r ↔ ∃ a, x = .ok a ∧ f a = r := by
  constructor
  · intro h
    cases x with
    | error e => cases h
    | ok a =>
        cases h
        exact ⟨a, rfl, rfl⟩
  · rintro ⟨a, rfl, rfl⟩
    rfl

/-- Two rests that agree on what the first step may give. -/
theorem bind_congr_ok {x : Except ε β} {f g : β → Except ε γ} (h : ∀ a, x = .ok a → f a = g a) :
    (x >>= f) = (x >>= g) := by
  cases x with
  | error e => rfl
  | ok a => exact h a rfl

@[simp] theorem ok_bind (a : β) (f : β → Except ε γ) : (Except.ok a >>= f) = f a := rfl

end Bind

/-! ## Loops -/

/-- A counting loop whose body succeeds wherever the invariant holds. -/
theorem foldlM_range (P : ℕ → σ → Prop) (body : σ → ℕ → Except ε σ) (n : ℕ) (s : σ)
    (h0 : P 0 s) (hstep : ∀ i, i < n → ∀ s, P i s → ∃ s', body s i = .ok s' ∧ P (i + 1) s') :
    ∃ s', (List.range n).foldlM body s = .ok s' ∧ P n s' := by
  induction n with
  | zero => exact ⟨s, rfl, h0⟩
  | succ n ih =>
      -- the first `n` iterations, then the one with counter `n`
      obtain ⟨t, ht, hP⟩ := ih fun i hi => hstep i (by omega)
      obtain ⟨u, hu, hP'⟩ := hstep n (Nat.lt_succ_self n) t hP
      refine ⟨u, ?_, hP'⟩
      rw [List.range_succ, List.foldlM_append, ht]
      simp only [List.foldlM_cons, List.foldlM_nil]
      change (body t n >>= fun s' => pure s') = .ok u
      rw [hu]
      rfl

/-- A walk of a list whose body succeeds wherever the invariant holds. The
invariant is indexed by the part of the list that is still to be visited. -/
theorem foldlM_list (P : List α → σ → Prop) (body : σ → α → Except ε σ) (l : List α) (s : σ)
    (h0 : P l s) (hstep : ∀ x l s, P (x :: l) s → ∃ s', body s x = .ok s' ∧ P l s') :
    ∃ s', l.foldlM body s = .ok s' ∧ P [] s' := by
  induction l generalizing s with
  | nil => exact ⟨s, rfl, h0⟩
  | cons x l ih =>
      obtain ⟨t, ht, hP⟩ := hstep x l s h0
      obtain ⟨u, hu, hP'⟩ := ih t hP
      refine ⟨u, ?_, hP'⟩
      rw [List.foldlM_cons, ht]
      exact hu

/-- A walk whose body never fails is the plain fold. -/
theorem foldlM_eq_ok (body : σ → α → Except ε σ) (f : σ → α → σ) (l : List α) (s : σ)
    (h : ∀ x ∈ l, ∀ s, body s x = .ok (f s x)) : l.foldlM body s = .ok (l.foldl f s) := by
  induction l generalizing s with
  | nil => rfl
  | cons x l ih =>
      rw [List.foldlM_cons, h x List.mem_cons_self s, List.foldl_cons]
      exact ih _ fun y hy => h y (List.mem_cons_of_mem _ hy)

/-- What a walk that ran to its end has established: the invariant is carried
over every body that succeeded. -/
theorem foldlM_ok (P : σ → Prop) (Q : α → Prop) (body : σ → α → Except ε σ) (l : List α)
    (s t : σ) (h : l.foldlM body s = .ok t) (h0 : P s)
    (hstep : ∀ x ∈ l, ∀ s t, P s → body s x = .ok t → P t ∧ Q x) :
    P t ∧ ∀ x ∈ l, Q x := by
  induction l generalizing s with
  | nil =>
      rw [List.foldlM_nil] at h
      cases h
      exact ⟨h0, fun _ hx => by cases hx⟩
  | cons x l ih =>
      rw [List.foldlM_cons] at h
      cases hb : body s x with
      | error e => rw [hb] at h; cases h
      | ok u =>
          rw [hb] at h
          obtain ⟨hPu, hQx⟩ := hstep x List.mem_cons_self s u h0 hb
          obtain ⟨hPt, hQ⟩ := ih u h hPu fun y hy => hstep y (List.mem_cons_of_mem _ hy)
          refine ⟨hPt, fun y hy => ?_⟩
          rcases List.mem_cons.mp hy with rfl | hy
          · exact hQx
          · exact hQ y hy

/-- The error a walk stops with is one of its body's. -/
theorem foldlM_error (Q : ε → Prop) (body : σ → α → Except ε σ) (l : List α) (s : σ) {e : ε}
    (h : l.foldlM body s = .error e) (hbody : ∀ s x e, body s x = .error e → Q e) : Q e := by
  induction l generalizing s with
  | nil => rw [List.foldlM_nil] at h; cases h
  | cons x l ih =>
      rw [List.foldlM_cons] at h
      cases hb : body s x with
      | error e' =>
          rw [hb] at h
          cases h
          exact hbody s x e hb
      | ok u => rw [hb] at h; exact ih u h

end Loops
