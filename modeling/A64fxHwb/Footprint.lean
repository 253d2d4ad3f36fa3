/-
Two computations that keep to different parts of a state.

`Twin` runs a computation that can fail twice, from two states, and says that both
runs fail in the same way or end with results that are related; its rules follow the
shape of the computation. A `Layout` looks at a state through cells, and through
counters that are only ever added to. A computation is `Local` to a set of cells when
it looks at no others and writes no others, the counters apart, and adds the same to
a counter wherever it starts. Two computations that are local to disjoint sets give
the same results in either order, and the states they leave have the same cells and
the same counters.
-/
import Mathlib.Data.Set.Lattice
import Mathlib.Order.CompletePartialOrder
import A64fxHwb.Loops

set_option autoImplicit false

namespace Footprint

universe u v

/-! ## Two runs side by side -/

section Twin

variable {ε : Type v} {α β γ : Type u}

/-- Both computations fail with one error, or their results are related by `R`. -/
inductive Twin (R : α → α → Prop) : Except ε α → Except ε α → Prop
  | ok {a b : α} (h : R a b) : Twin R (.ok a) (.ok b)
  | error (e : ε) : Twin R (.error e) (.error e)

variable {R : α → α → Prop} {Q : β → β → Prop} {x y : Except ε α}

theorem Twin.mono {R' : α → α → Prop} (h : Twin R x y) (hR : ∀ a b, R a b → R' a b) :
    Twin R' x y := by
  cases h with
  | ok h => exact .ok (hR _ _ h)
  | error e => exact .error e

/-- What one of the two comes to, the other comes to as well. -/
theorem Twin.of_left {a : α} (h : Twin R (.ok a) y) : ∃ b, y = .ok b ∧ R a b := by
  cases h with
  | ok h => exact ⟨_, rfl, h⟩

theorem Twin.of_right {b : α} (h : Twin R x (.ok b)) : ∃ a, x = .ok a ∧ R a b := by
  cases h with
  | ok h => exact ⟨_, rfl, h⟩

/-- **The rule for a sequence.** -/
theorem Twin.bind {f g : α → Except ε β} (h : Twin R x y)
    (hfg : ∀ a b, R a b → Twin Q (f a) (g b)) : Twin Q (x >>= f) (y >>= g) := by
  cases h with
  | ok h => exact hfg _ _ h
  | error e => exact .error e

/-- The same with what the first step came to. -/
theorem Twin.bind_ok {f g : α → Except ε β} (h : Twin R x y)
    (hfg : ∀ a b, x = .ok a → R a b → Twin Q (f a) (g b)) : Twin Q (x >>= f) (y >>= g) := by
  cases h with
  | ok h => exact hfg _ _ rfl h
  | error e => exact .error e

/-- A first step that is the same in both runs. -/
theorem Twin.bind_same {f g : α → Except ε β} (h : ∀ a, x = .ok a → Twin Q (f a) (g a)) :
    Twin Q (x >>= f) (x >>= g) := by
  cases hx : x with
  | ok a => exact h a hx
  | error e => exact .error e

/-- A branch that both runs take. -/
theorem Twin.ite {p : Prop} [Decidable p] {x' y' : Except ε α} (h : p → Twin R x y)
    (h' : ¬p → Twin R x' y') : Twin R (if p then x else x') (if p then y else y') := by
  by_cases hp : p
  · rw [if_pos hp, if_pos hp]
    exact h hp
  · rw [if_neg hp, if_neg hp]
    exact h' hp

theorem Twin.map {f g : α → β} (h : Twin R x y) (hfg : ∀ a b, R a b → Q (f a) (g b)) :
    Twin Q (x.map f) (y.map g) := by
  cases h with
  | ok h => exact .ok (hfg _ _ h)
  | error e => exact .error e

/-- **The rule for a loop**: the relation is what one iteration keeps. -/
theorem Twin.foldlM {δ : Type*} {f g : α → δ → Except ε α} {l : List δ}
    (hstep : ∀ d ∈ l, ∀ a b, R a b → Twin R (f a d) (g b d)) {a b : α} (h : R a b) :
    Twin R (l.foldlM f a) (l.foldlM g b) := by
  induction l generalizing a b with
  | nil => exact .ok h
  | cons d l ih =>
      rw [List.foldlM_cons, List.foldlM_cons]
      refine (hstep d List.mem_cons_self a b h).bind fun a' b' h' => ?_
      exact ih (fun d' hd' => hstep d' (List.mem_cons_of_mem _ hd')) h'

end Twin

/-! ## Cells and counters -/

variable {σ : Type u} {ι κ : Type*} {β : ι → Type*}

/-- How a state is looked at. -/
structure Layout (σ : Type u) (ι κ : Type*) (β : ι → Type*) where
  cell : (i : ι) → σ → β i
  count : κ → σ → ℤ

variable {L : Layout σ ι κ β} {S T : Set ι} {s t s' t' s'' t'' : σ}

/-- The two states have the same values in the cells of `S`. -/
def Layout.Agree (L : Layout σ ι κ β) (S : Set ι) (s t : σ) : Prop :=
  ∀ i ∈ S, L.cell i s = L.cell i t

theorem Layout.Agree.refl (s : σ) : L.Agree S s s := fun _ _ => rfl

theorem Layout.Agree.symm (h : L.Agree S s t) : L.Agree S t s := fun i hi => (h i hi).symm

theorem Layout.Agree.trans (h : L.Agree S s t) (h' : L.Agree S t s') : L.Agree S s s' :=
  fun i hi => (h i hi).trans (h' i hi)

theorem Layout.Agree.mono (h : L.Agree T s t) (hST : S ⊆ T) : L.Agree S s t :=
  fun i hi => h i (hST hi)

/-- Two runs, from `s` to `s'` and from `t` to `t'`: they leave the same in the cells
of `S`, write no other cell, and add the same to every counter. -/
structure Layout.Step (L : Layout σ ι κ β) (S : Set ι) (s t s' t' : σ) : Prop where
  agree : L.Agree S s' t'
  left : L.Agree Sᶜ s s'
  right : L.Agree Sᶜ t t'
  count : ∀ k, L.count k s' - L.count k s = L.count k t' - L.count k t

theorem Layout.Step.refl (h : L.Agree S s t) : L.Step S s t s t where
  agree := h
  left := .refl s
  right := .refl t
  count k := by omega

theorem Layout.Step.trans (h : L.Step S s t s' t') (h' : L.Step S s' t' s'' t'') :
    L.Step S s t s'' t'' where
  agree := h'.agree
  left := h.left.trans h'.left
  right := h.right.trans h'.right
  count k := by
    have h1 := h.count k
    have h2 := h'.count k
    omega

/-! ## Local computations -/

section Local

variable {ε : Type v} {ρ ρ' : Type u} {P : σ → Prop}
variable {f : σ → Except ε (ρ × σ)} {g : σ → Except ε (ρ' × σ)}

/-- Among the states that satisfy `P`, the computation neither looks at nor writes a
cell outside `S`. -/
def Layout.Local (L : Layout σ ι κ β) (P : σ → Prop) (S : Set ι) (f : σ → Except ε (ρ × σ)) :
    Prop :=
  ∀ s t, P s → P t → L.Agree S s t →
    Twin (fun x y => x.1 = y.1 ∧ L.Step S s t x.2 y.2) (f s) (f t)

/-- A computation that leaves every state alone and always says the same. -/
theorem Layout.Local.const {r : ρ} (h : ∀ s, P s → f s = .ok (r, s)) : L.Local P S f := by
  intro s t hs ht hagree
  rw [h s hs, h t ht]
  exact .ok ⟨rfl, .refl hagree⟩

/-- One computation, then the other. -/
def inTurn (f : σ → Except ε (ρ × σ)) (g : σ → Except ε (ρ' × σ)) (s : σ) :
    Except ε ((ρ × ρ') × σ) := do
  let (r, s) ← f s
  let (r', s) ← g s
  return ((r, r'), s)

theorem inTurn_ok {r : ρ} {r' : ρ'} (hf : f s = .ok (r, s')) (hg : g s' = .ok (r', s'')) :
    inTurn f g s = .ok ((r, r'), s'') := by
  unfold inTurn
  rw [hf, Loops.ok_bind]
  simp only [hg, Loops.ok_bind]
  rfl

theorem inTurn_error_left {e : ε} (hf : f s = .error e) : inTurn f g s = .error e := by
  unfold inTurn
  rw [hf]
  rfl

theorem inTurn_error_right {e : ε} {r : ρ} (hf : f s = .ok (r, s')) (hg : g s' = .error e) :
    inTurn f g s = .error e := by
  unfold inTurn
  rw [hf, Loops.ok_bind]
  simp only [hg]
  rfl

/-- The two orders come to the same: with results that are the same, and states with the
same cells and counters, or with an error that one of the two makes from the start. -/
inductive Layout.Commute (L : Layout σ ι κ β) (P : σ → Prop) (f : σ → Except ε (ρ × σ))
    (g : σ → Except ε (ρ' × σ)) (s : σ) : Prop
  | ok (r : ρ) (r' : ρ') (u v : σ) (hfg : inTurn f g s = .ok ((r, r'), u))
      (hgf : inTurn g f s = .ok ((r', r), v)) (hu : P u) (hv : P v)
      (cell : ∀ i, L.cell i u = L.cell i v) (count : ∀ k, L.count k u = L.count k v)
  | error (e e' : ε) (hfg : inTurn f g s = .error e) (hgf : inTurn g f s = .error e')
      (he : f s = .error e ∨ g s = .error e) (he' : f s = .error e' ∨ g s = .error e')

/-- A local computation keeps to its cells. -/
theorem Layout.Local.frame (hf : L.Local P S f) (hs : P s) {r : ρ} (h : f s = .ok (r, s')) :
    L.Agree Sᶜ s s' := by
  have htwin := hf s s hs hs (.refl s)
  rw [h] at htwin
  cases htwin with
  | ok h2 => exact h2.2.left

/-- It does not notice what was done to other cells: it gives the same result, -/
theorem Layout.Local.after_ok (hf : L.Local P S f) (hST : Disjoint S T) (hs : P s) (ht : P t)
    (h : L.Agree Tᶜ s t) {r : ρ} (hfs : f s = .ok (r, s')) :
    ∃ t', f t = .ok (r, t') ∧ L.Step S s t s' t' := by
  have htwin := hf s t hs ht (h.mono hST.subset_compl_right)
  rw [hfs] at htwin
  cases hft : f t with
  | error e => rw [hft] at htwin; cases htwin
  | ok y =>
      obtain ⟨r', t'⟩ := y
      rw [hft] at htwin
      cases htwin with
      | ok h2 =>
          obtain ⟨hr, hstep⟩ := h2
          have hrr : r = r' := hr
          exact ⟨t', by rw [hrr], hstep⟩

/-- or it fails with the same error. -/
theorem Layout.Local.after_error (hf : L.Local P S f) (hST : Disjoint S T) (hs : P s) (ht : P t)
    (h : L.Agree Tᶜ s t) {e : ε} (hfs : f s = .error e) : f t = .error e := by
  have htwin := hf s t hs ht (h.mono hST.subset_compl_right)
  rw [hfs] at htwin
  cases hft : f t with
  | ok y => rw [hft] at htwin; cases htwin
  | error e' =>
      rw [hft] at htwin
      cases htwin
      rfl

/-- **Local computations on disjoint cells commute.** -/
theorem Layout.Local.commute (hf : L.Local P S f) (hg : L.Local P T g) (hST : Disjoint S T)
    (hPf : ∀ s r s', P s → f s = .ok (r, s') → P s')
    (hPg : ∀ s r s', P s → g s = .ok (r, s') → P s') (hs : P s) : L.Commute P f g s := by
  cases hfs : f s with
  | error e =>
      cases hgs : g s with
      | error e' =>
          exact .error e e' (inTurn_error_left hfs) (inTurn_error_left hgs) (Or.inl hfs)
            (Or.inr hgs)
      | ok y =>
          have hfail := hf.after_error hST hs (hPg s y.1 y.2 hs hgs) (hg.frame hs hgs) hfs
          exact .error e e (inTurn_error_left hfs) (inTurn_error_right hgs hfail) (Or.inl hfs)
            (Or.inl hfs)
  | ok x =>
      obtain ⟨r, s₁⟩ := x
      have hs₁ := hPf s r s₁ hs hfs
      have hframe₁ := hf.frame hs hfs
      cases hgs : g s with
      | error e =>
          have hfail := hg.after_error hST.symm hs hs₁ hframe₁ hgs
          exact .error e e (inTurn_error_right hfs hfail) (inTurn_error_left hgs) (Or.inr hgs)
            (Or.inr hgs)
      | ok y =>
          obtain ⟨r', s₂⟩ := y
          have hs₂ := hPg s r' s₂ hs hgs
          have hframe₂ := hg.frame hs hgs
          obtain ⟨u, hu, hgstep⟩ := hg.after_ok hST.symm hs hs₁ hframe₁ hgs
          obtain ⟨v, hv, hfstep⟩ := hf.after_ok hST hs hs₂ hframe₂ hfs
          refine .ok r r' u v (inTurn_ok hfs hu) (inTurn_ok hgs hv) (hPg s₁ r' u hs₁ hu)
            (hPf s₂ r v hs₂ hv) (fun i => ?_) fun k => ?_
          · -- a cell is written by one of the two at most
            by_cases hi : i ∈ T
            · have hiS : i ∉ S := fun h => Set.disjoint_left.mp hST h hi
              rw [← hgstep.agree i hi]
              exact hfstep.right i hiS
            · rw [← hgstep.right i hi]
              by_cases hiS : i ∈ S
              · exact hfstep.agree i hiS
              · rw [← hfstep.right i hiS, ← hframe₂ i hi, hframe₁ i hiS]
          · -- and a counter is added to by both
            have h1 := hgstep.count k
            have h2 := hfstep.count k
            omega

end Local

end Footprint
