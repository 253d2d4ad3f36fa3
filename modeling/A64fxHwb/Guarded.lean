/-
Calls that do their work under one lock.

A call first looks at the shared state without the lock, which may already settle its
answer; otherwise it waits for the lock, does its work, and gives the lock back. The
threads take these steps in any order, and a look may fall into the middle of another
thread's work. When what a call looks at never changes, and the lock keeps every other
thread out, it is as if each call happened all at once: at the step that gives the lock
back, or at the look if that settles it. The rule is `follows_of_run`: a run of the steps
is, label by label, a run of whole calls.
-/
import A64fxHwb.Loops
import A64fxHwb.Runs

set_option autoImplicit false

namespace Locking

open Runs

universe u v

variable {τ ε κ φ : Type*} {σ ρ : Type u}

/-- What a call does before it has the lock, with the lock, and how the lock is taken and
given back. A look ends with the answer, or with what is left to do. In the middle of the
work on `s`, the others may find any `s'` with `writes k s s'`. -/
structure Guarded (σ : Type u) (ε κ : Type*) (ρ : Type u) (φ : Type*) where
  look : ε → σ → ρ ⊕ κ
  lock : σ → Except φ σ
  writes : κ → σ → σ → Prop
  work : κ → σ → Except φ (ρ × σ)
  unlock : σ → Except φ σ

/-- A call from its look to its answer, with nobody else around. -/
def Guarded.whole (G : Guarded σ ε κ ρ φ) (e : ε) (s : σ) : Except φ (ρ × σ) :=
  match G.look e s with
  | .inl r => .ok (r, s)
  | .inr k => do
    let s ← G.lock s
    let (r, s) ← G.work k s
    let s ← G.unlock s
    return (r, s)

/-! ## Threads -/

/-- The shared state, and where each thread is. -/
structure World (τ : Type*) (σ : Type u) (S : Type*) where
  shared : σ
  stage : τ → S

/-- Where a thread is in a call that takes its steps one by one. Inside, it works on the
state `s` it has found. -/
inductive Stage (σ ε κ ρ : Type*)
  | idle
  | called (e : ε)
  | waiting (e : ε) (k : κ)
  | inside (e : ε) (k : κ) (s : σ)
  | done (e : ε) (r : ρ)
  | leaving (e : ε) (r : ρ)

/-- Where a thread is in a call that happens all at once. -/
inductive Turn (ε ρ : Type*)
  | idle
  | pending (e : ε)
  | answered (e : ε) (r : ρ)

/-- What a step is seen as. At a `commit` the call takes effect. -/
inductive Label (τ ε ρ : Type*)
  | call (t : τ) (e : ε)
  | commit (t : τ) (e : ε) (r : ρ)
  | ret (t : τ) (e : ε) (r : ρ)
  | quiet (t : τ)

namespace Stage

/-- The thread has the lock. -/
def Inside : Stage σ ε κ ρ → Prop
  | .inside _ _ _ => True
  | .done _ _ => True
  | _ => False

theorem inside_of_inside {st : Stage σ ε κ ρ} {e : ε} {k : κ} {s : σ} (h : st = .inside e k s) :
    st.Inside := by
  rw [h]
  trivial

theorem inside_of_done {st : Stage σ ε κ ρ} {e : ε} {r : ρ} (h : st = .done e r) : st.Inside := by
  rw [h]
  trivial

/-- The call as it is seen from outside. -/
def turn : Stage σ ε κ ρ → Turn ε ρ
  | .idle => .idle
  | .called e => .pending e
  | .waiting e _ => .pending e
  | .inside e _ _ => .pending e
  | .done e _ => .pending e
  | .leaving e r => .answered e r

end Stage

namespace World

variable {S S' : Type*}

/-- Thread `t` gets to `st` and leaves the shared state `s`. -/
def move [DecidableEq τ] (w : World τ σ S) (t : τ) (st : S) (s : σ) : World τ σ S where
  shared := s
  stage := Function.update w.stage t st

/-- No thread has called yet. -/
def start (s : σ) (st : S) : World τ σ S := ⟨s, fun _ => st⟩

variable [DecidableEq τ] {w : World τ σ S} {t t' : τ} {st : S} {s : σ}

@[simp] theorem shared_move : (w.move t st s).shared = s := rfl

@[simp] theorem stage_move_self : (w.move t st s).stage t = st := by
  unfold move
  exact Function.update_self ..

theorem stage_move_of_ne (h : t' ≠ t) (st : S) (s : σ) :
    (w.move t st s).stage t' = w.stage t' := by
  unfold move
  exact Function.update_of_ne h ..

end World

section Steps

variable [DecidableEq τ]

/-- One step of one thread. Only calls in `A` are made. A thread that is refused the lock
stays where it is, and so does one whose work faults. -/
inductive Guarded.Step (G : Guarded σ ε κ ρ φ) (A : ε → Prop) :
    World τ σ (Stage σ ε κ ρ) → Label τ ε ρ → World τ σ (Stage σ ε κ ρ) → Prop
  | call {w : World τ σ (Stage σ ε κ ρ)} {t : τ} {e : ε} (hst : w.stage t = .idle) (he : A e) :
      Step G A w (.call t e) (w.move t (.called e) w.shared)
  | answer {w : World τ σ (Stage σ ε κ ρ)} {t : τ} {e : ε} {r : ρ} (hst : w.stage t = .called e)
      (hlook : G.look e w.shared = .inl r) :
      Step G A w (.commit t e r) (w.move t (.leaving e r) w.shared)
  | look {w : World τ σ (Stage σ ε κ ρ)} {t : τ} {e : ε} {k : κ} (hst : w.stage t = .called e)
      (hlook : G.look e w.shared = .inr k) :
      Step G A w (.quiet t) (w.move t (.waiting e k) w.shared)
  | lock {w : World τ σ (Stage σ ε κ ρ)} {t : τ} {e : ε} {k : κ} {s : σ}
      (hst : w.stage t = .waiting e k) (hlock : G.lock w.shared = .ok s) :
      Step G A w (.quiet t) (w.move t (.inside e k s) s)
  | write {w : World τ σ (Stage σ ε κ ρ)} {t : τ} {e : ε} {k : κ} {s s' : σ}
      (hst : w.stage t = .inside e k s) (hwrite : G.writes k s s') :
      Step G A w (.quiet t) (w.move t (.inside e k s) s')
  | work {w : World τ σ (Stage σ ε κ ρ)} {t : τ} {e : ε} {k : κ} {r : ρ} {s s' : σ}
      (hst : w.stage t = .inside e k s) (hwork : G.work k s = .ok (r, s')) :
      Step G A w (.quiet t) (w.move t (.done e r) s')
  | unlock {w : World τ σ (Stage σ ε κ ρ)} {t : τ} {e : ε} {r : ρ} {s : σ}
      (hst : w.stage t = .done e r) (hunlock : G.unlock w.shared = .ok s) :
      Step G A w (.commit t e r) (w.move t (.leaving e r) s)
  | ret {w : World τ σ (Stage σ ε κ ρ)} {t : τ} {e : ε} {r : ρ} (hst : w.stage t = .leaving e r) :
      Step G A w (.ret t e r) (w.move t .idle w.shared)

/-- The same labels when a call happens all at once, at its commit. -/
inductive Atomic (f : ε → σ → Except φ (ρ × σ)) (A : ε → Prop) :
    World τ σ (Turn ε ρ) → Label τ ε ρ → World τ σ (Turn ε ρ) → Prop
  | call {v : World τ σ (Turn ε ρ)} {t : τ} {e : ε} (hst : v.stage t = .idle) (he : A e) :
      Atomic f A v (.call t e) (v.move t (.pending e) v.shared)
  | commit {v : World τ σ (Turn ε ρ)} {t : τ} {e : ε} {r : ρ} {s : σ}
      (hst : v.stage t = .pending e) (he : A e) (hf : f e v.shared = .ok (r, s)) :
      Atomic f A v (.commit t e r) (v.move t (.answered e r) s)
  | ret {v : World τ σ (Turn ε ρ)} {t : τ} {e : ε} {r : ρ} (hst : v.stage t = .answered e r) :
      Atomic f A v (.ret t e r) (v.move t .idle v.shared)
  | quiet {v : World τ σ (Turn ε ρ)} (t : τ) : Atomic f A v (.quiet t) v

/-- What holds of the shared state after every step of whole calls, holds after a run. -/
theorem invariant_of_atomic {f : ε → σ → Except φ (ρ × σ)} {A : ε → Prop} {I : σ → Prop}
    {v v' : World τ σ (Turn ε ρ)} {ls : List (Label τ ε ρ)} (h : Trace (Atomic f A) v ls v')
    (hstep : ∀ e s r s', I s → A e → f e s = .ok (r, s') → I s') (hI : I v.shared) :
    I v'.shared := by
  induction h with
  | nil => exact hI
  | cons hs _ ih =>
      refine ih ?_
      cases hs with
      | call => exact hI
      | commit _ he hf => exact hstep _ _ _ _ hI he hf
      | ret => exact hI
      | quiet => exact hI

end Steps

/-! ## What the lock has to do -/

/-- `P` holds between two calls and `Q` at any time. What a call looks at is the same all
the time, and the lock is refused until it is given back. -/
structure Guarded.Sound (G : Guarded σ ε κ ρ φ) (A : ε → Prop) (P Q : σ → Prop) : Prop where
  seen : ∀ {s}, P s → Q s
  next : ∀ {e s r s'}, P s → A e → G.whole e s = .ok (r, s') → P s'
  same : ∀ {s s'}, Q s → Q s' → ∀ e, G.look e s' = G.look e s
  lock : ∀ {s}, P s → ∃ s', G.lock s = .ok s' ∧ Q s' ∧ ∀ s'', G.lock s' ≠ .ok s''
  write : ∀ {s k s₁ s'}, P s → G.lock s = .ok s₁ → G.writes k s₁ s' →
    Q s' ∧ ∀ s'', G.lock s' ≠ .ok s''
  work : ∀ {e k s s₁ r s₂}, P s → A e → G.look e s = .inr k → G.lock s = .ok s₁ →
    G.work k s₁ = .ok (r, s₂) → Q s₂ ∧ ∃ s₃, G.unlock s₂ = .ok s₃
  held : ∀ {s s'}, G.unlock s = .ok s' → ∀ s'', G.lock s ≠ .ok s''

variable {G : Guarded σ ε κ ρ φ} {A : ε → Prop} {P Q : σ → Prop}

/-- No thread has the lock, or one thread has. In between, `a` is the state of the calls
that have taken effect. -/
inductive Phase (G : Guarded σ ε κ ρ φ) (A : ε → Prop) (Q : σ → Prop)
    (w : World τ σ (Stage σ ε κ ρ)) (a : σ) : Prop
  | free (hfree : ∀ t, ¬(w.stage t).Inside) (hshared : w.shared = a)
  | inside {t : τ} {e : ε} {k : κ} {s : σ} (hst : w.stage t = .inside e k s)
      (honly : ∀ t', (w.stage t').Inside → t' = t) (he : A e) (hlook : G.look e a = .inr k)
      (hlock : G.lock a = .ok s) (hseen : Q w.shared) (htaken : ∀ s', G.lock w.shared ≠ .ok s')
  | done {t : τ} {e : ε} {r : ρ} {s : σ} (hst : w.stage t = .done e r)
      (honly : ∀ t', (w.stage t').Inside → t' = t) (he : A e) (hseen : Q w.shared)
      (hunlock : G.unlock w.shared = .ok s) (hwhole : G.whole e a = .ok (r, s))

/-- What a thread outside the lock knows. -/
def Stage.Knows (G : Guarded σ ε κ ρ φ) (A : ε → Prop) (a : σ) : Stage σ ε κ ρ → Prop
  | .called e => A e
  | .waiting e k => A e ∧ G.look e a = .inr k
  | _ => True

/-- The calls that have taken effect have left `v`. -/
structure Follows (G : Guarded σ ε κ ρ φ) (A : ε → Prop) (P Q : σ → Prop)
    (w : World τ σ (Stage σ ε κ ρ)) (v : World τ σ (Turn ε ρ)) : Prop where
  settled : P v.shared
  turns : ∀ t, v.stage t = (w.stage t).turn
  phase : Phase G A Q w v.shared
  knows : ∀ t, (w.stage t).Knows G A v.shared

variable {w w' : World τ σ (Stage σ ε κ ρ)} {v : World τ σ (Turn ε ρ)} {t : τ}
variable {st : Stage σ ε κ ρ} {s a a' : σ} {l : Label τ ε ρ}

theorem whole_eq_of_answer {e : ε} {r : ρ} (h : G.look e a = .inl r) :
    G.whole e a = .ok (r, a) := by
  unfold Guarded.whole
  rw [h]

/-- A whole call that does some work is its steps. -/
theorem whole_eq_ok {e : ε} {k : κ} {r : ρ} (hlook : G.look e a = .inr k) :
    G.whole e a = .ok (r, s) ↔ ∃ s₁ s₂, G.lock a = .ok s₁ ∧ G.work k s₁ = .ok (r, s₂) ∧
      G.unlock s₂ = .ok s := by
  unfold Guarded.whole
  rw [hlook]
  constructor
  · intro h
    obtain ⟨s₁, hlock, h⟩ := Loops.bind_eq_ok.mp h
    obtain ⟨⟨r', s₂⟩, hwork, h⟩ := Loops.bind_eq_ok.mp h
    obtain ⟨s₃, hunlock, h⟩ := Loops.bind_eq_ok.mp h
    cases h
    exact ⟨s₁, s₂, hlock, hwork, hunlock⟩
  · rintro ⟨s₁, s₂, hlock, hwork, hunlock⟩
    simp only [hlock, hwork, hunlock, Loops.ok_bind]
    rfl

theorem Stage.Knows.congr (hlook : ∀ e, G.look e a' = G.look e a) (h : st.Knows G A a) :
    st.Knows G A a' := by
  cases st with
  | waiting e k => exact ⟨h.1, (hlook e).trans h.2⟩
  | called e => exact h
  | _ => trivial

theorem Phase.seen (h : Phase G A Q w a) (hG : G.Sound A P Q) (ha : P a) : Q w.shared := by
  cases h with
  | free _ hshared => exact hshared ▸ hG.seen ha
  | inside _ _ _ _ _ hseen => exact hseen
  | done _ _ _ hseen => exact hseen

/-- The thread inside is the one the phase speaks of. -/
theorem Phase.of_inside (h : Phase G A Q w a) {e : ε} {k : κ} {s₁ : σ}
    (hst : w.stage t = .inside e k s₁) : (∀ t', (w.stage t').Inside → t' = t) ∧ A e ∧
      G.look e a = .inr k ∧ G.lock a = .ok s₁ := by
  have hin := Stage.inside_of_inside hst
  cases h with
  | free hfree => exact absurd hin (hfree t)
  | inside hst₀ honly he hlook hlock =>
      obtain rfl := honly t hin
      obtain ⟨rfl, rfl, rfl⟩ := Stage.inside.inj (hst₀.symm.trans hst)
      exact ⟨honly, he, hlook, hlock⟩
  | done hst₀ honly =>
      obtain rfl := honly t hin
      cases hst₀.symm.trans hst

theorem Follows.start (hs : P s) :
    Follows G A P Q (World.start s .idle : World τ σ (Stage σ ε κ ρ)) (World.start s .idle) where
  settled := hs
  turns _ := rfl
  phase := .free (fun _ => not_false) rfl
  knows _ := trivial

section Moves

variable [DecidableEq τ]

/-- A thread that is inside after a step out of the lock was inside before, and is not the
one that made the step. -/
theorem inside_of_move {t' : τ} (hst : ¬st.Inside) (h : ((w.move t st s).stage t').Inside) :
    t' ≠ t ∧ (w.stage t').Inside := by
  have hne : t' ≠ t := by
    rintro rfl
    rw [World.stage_move_self] at h
    exact hst h
  rw [World.stage_move_of_ne hne] at h
  exact ⟨hne, h⟩

theorem turns_move (h : ∀ t, v.stage t = (w.stage t).turn) (t : τ) (st : Stage σ ε κ ρ) (s a : σ) :
    ∀ t', (v.move t st.turn a).stage t' = ((w.move t st s).stage t').turn := by
  intro t'
  by_cases hne : t' = t
  · subst hne
    rw [World.stage_move_self, World.stage_move_self]
  · rw [World.stage_move_of_ne hne, World.stage_move_of_ne hne]
    exact h t'

theorem turns_stay (h : ∀ t, v.stage t = (w.stage t).turn) (hst : (w.stage t).turn = st.turn)
    (s : σ) : ∀ t', v.stage t' = ((w.move t st s).stage t').turn := by
  intro t'
  by_cases hne : t' = t
  · subst hne
    rw [World.stage_move_self, h t', hst]
  · rw [World.stage_move_of_ne hne]
    exact h t'

theorem knows_move (h : ∀ t, (w.stage t).Knows G A a) (hlook : ∀ e, G.look e a' = G.look e a)
    (t : τ) (st : Stage σ ε κ ρ) (s : σ) (hst : st.Knows G A a') :
    ∀ t', ((w.move t st s).stage t').Knows G A a' := by
  intro t'
  by_cases hne : t' = t
  · subst hne
    rw [World.stage_move_self]
    exact hst
  · rw [World.stage_move_of_ne hne]
    exact (h t').congr hlook

/-- A step outside the lock does not change who has it. -/
theorem Phase.outside (h : Phase G A Q w a) (st : Stage σ ε κ ρ) (hbefore : ¬(w.stage t).Inside)
    (hafter : ¬st.Inside) : Phase G A Q (w.move t st w.shared) a := by
  have hne : ∀ t', (w.stage t').Inside → t' ≠ t := by
    rintro t' hin rfl
    exact hbefore hin
  cases h with
  | free hfree hshared =>
      refine .free (fun t' hin => ?_) hshared
      exact hfree t' (inside_of_move hafter hin).2
  | @inside t₀ e k s hst honly he hlook hlock hseen htaken =>
      have hstage := World.stage_move_of_ne (w := w) (hne t₀ (Stage.inside_of_inside hst)) st
        w.shared
      refine .inside (hstage.trans hst) (fun t' hin => ?_) he hlook hlock hseen htaken
      exact honly t' (inside_of_move hafter hin).2
  | @done t₀ e r s hst honly he hseen hunlock hwhole =>
      have hstage := World.stage_move_of_ne (w := w) (hne t₀ (Stage.inside_of_done hst)) st
        w.shared
      refine .done (hstage.trans hst) (fun t' hin => ?_) he hseen hunlock hwhole
      exact honly t' (inside_of_move hafter hin).2

/-- A thread inside stays the only one. -/
theorem only_move (honly : ∀ t', (w.stage t').Inside → t' = t) (st : Stage σ ε κ ρ) (s : σ) :
    ∀ t', ((w.move t st s).stage t').Inside → t' = t := by
  intro t' hin
  by_contra hne
  rw [World.stage_move_of_ne hne] at hin
  exact hne (honly t' hin)

/-- A thread that gets the lock finds the state between two calls. -/
theorem Phase.lock (h : Phase G A Q w a) (hG : G.Sound A P Q) (ha : P a) {e : ε} {k : κ}
    (hknows : (w.stage t).Knows G A a) (hst : w.stage t = .waiting e k)
    (hlock : G.lock w.shared = .ok s) : Phase G A Q (w.move t (.inside e k s) s) a := by
  rw [hst] at hknows
  cases h with
  | free hfree hshared =>
      rw [hshared] at hlock
      obtain ⟨s', hs', hseen, htaken⟩ := hG.lock ha
      obtain rfl := Except.ok.inj (hs'.symm.trans hlock)
      refine .inside (t := t) World.stage_move_self ?_ hknows.1 hknows.2 hlock hseen htaken
      exact only_move (fun t' hin => absurd hin (hfree t')) _ _
  | inside _ _ _ _ _ _ htaken => exact absurd hlock (htaken s)
  | done _ _ _ _ hunlock => exact absurd hlock (hG.held hunlock s)

theorem Phase.write (h : Phase G A Q w a) (hG : G.Sound A P Q) (ha : P a) {e : ε} {k : κ} {s₁ : σ}
    (hst : w.stage t = .inside e k s₁) (hwrite : G.writes k s₁ s) :
    Phase G A Q (w.move t (.inside e k s₁) s) a := by
  obtain ⟨honly, he, hlook, hlock⟩ := h.of_inside hst
  obtain ⟨hseen, htaken⟩ := hG.write ha hlock hwrite
  exact .inside World.stage_move_self (only_move honly _ _) he hlook hlock hseen htaken

theorem Phase.work (h : Phase G A Q w a) (hG : G.Sound A P Q) (ha : P a) {e : ε} {k : κ} {r : ρ}
    {s₁ : σ} (hst : w.stage t = .inside e k s₁) (hwork : G.work k s₁ = .ok (r, s)) :
    Phase G A Q (w.move t (.done e r) s) a := by
  obtain ⟨honly, he, hlook, hlock⟩ := h.of_inside hst
  obtain ⟨hseen, s₃, hunlock⟩ := hG.work ha he hlook hlock hwork
  exact .done World.stage_move_self (only_move honly _ _) he hseen hunlock
    ((whole_eq_ok hlook).mpr ⟨_, _, hlock, hwork, hunlock⟩)

/-- Giving the lock back is what the whole call comes to. -/
theorem Phase.unlock (h : Phase G A Q w a) {e : ε} {r : ρ} (hst : w.stage t = .done e r)
    (hunlock : G.unlock w.shared = .ok s) : A e ∧ G.whole e a = .ok (r, s) ∧
      Phase G A Q (w.move t (.leaving e r) s) s := by
  have hin := Stage.inside_of_done hst
  have hout : ¬(Stage.leaving e r : Stage σ ε κ ρ).Inside := not_false
  cases h with
  | free hfree => exact absurd hin (hfree t)
  | inside hst₀ honly =>
      obtain rfl := honly t hin
      cases hst₀.symm.trans hst
  | done hst₀ honly he hseen hunlock₀ hwhole =>
      obtain rfl := honly t hin
      obtain ⟨rfl, rfl⟩ := Stage.done.inj (hst₀.symm.trans hst)
      obtain rfl := Except.ok.inj (hunlock₀.symm.trans hunlock)
      refine ⟨he, hwhole, .free (fun t' hin' => ?_) rfl⟩
      obtain ⟨hne, hin'⟩ := inside_of_move hout hin'
      exact hne (honly t' hin')

/-! ## The rule -/

/-- A step that is seen, after which the calls have left `a'`. -/
theorem Follows.seen (h : Follows G A P Q w v) (hs : P a')
    (hlook : ∀ e, G.look e a' = G.look e v.shared) (hphase : Phase G A Q (w.move t st s) a')
    (hknows : st.Knows G A a') : Follows G A P Q (w.move t st s) (v.move t st.turn a') where
  settled := hs
  turns := turns_move h.turns t st s a'
  phase := hphase
  knows := knows_move h.knows hlook t st s hknows

/-- A step that is not seen: the thread is in the same call as before. -/
theorem Follows.quiet (h : Follows G A P Q w v) {st₀ : Stage σ ε κ ρ} (hst : w.stage t = st₀)
    (hturn : st₀.turn = st.turn) (hphase : Phase G A Q (w.move t st s) v.shared)
    (hknows : st.Knows G A v.shared) :
    ∃ v', Atomic G.whole A v (.quiet t) v' ∧ Follows G A P Q (w.move t st s) v' := by
  have hsame : (w.stage t).turn = st.turn := hst ▸ hturn
  refine ⟨v, .quiet t, h.settled, turns_stay h.turns hsame s, hphase, ?_⟩
  exact knows_move h.knows (fun _ => rfl) t st s hknows

/-- One step is one step of whole calls. -/
theorem Follows.step (hG : G.Sound A P Q) (h : Follows G A P Q w v) (hs : G.Step A w l w') :
    ∃ v', Atomic G.whole A v l v' ∧ Follows G A P Q w' v' := by
  -- also in the middle of another thread's work
  have hlook : ∀ e, G.look e w.shared = G.look e v.shared :=
    hG.same (hG.seen h.settled) (h.phase.seen hG h.settled)
  have hturn : ∀ {t st}, w.stage t = st → v.stage t = st.turn :=
    fun {t} _ hst => (h.turns t).trans (congrArg Stage.turn hst)
  have hknows : ∀ {t st}, w.stage t = st → st.Knows G A v.shared :=
    fun {t} _ hst => hst ▸ h.knows t
  have houtside : ∀ {t st}, w.stage t = st → ¬st.Inside → ¬(w.stage t).Inside :=
    fun hst hout hin => hout (hst ▸ hin)
  cases hs with
  | @call t e hst he =>
      have hphase := h.phase.outside (.called e) (houtside hst not_false) not_false
      exact ⟨_, .call (hturn hst) he, h.seen h.settled (fun _ => rfl) hphase he⟩
  | @answer t e r hst hans =>
      have hphase := h.phase.outside (.leaving e r) (houtside hst not_false) not_false
      have hwhole := whole_eq_of_answer ((hlook e).symm.trans hans)
      exact ⟨_, .commit (hturn hst) (hknows hst) hwhole,
        h.seen h.settled (fun _ => rfl) hphase trivial⟩
  | @look t e k hst hrest =>
      have hphase := h.phase.outside (.waiting e k) (houtside hst not_false) not_false
      exact h.quiet hst rfl hphase ⟨hknows hst, (hlook e).symm.trans hrest⟩
  | @lock t e k s hst hlock =>
      have hphase := h.phase.lock hG h.settled (h.knows t) hst hlock
      exact h.quiet hst rfl hphase trivial
  | @write t e k s s' hst hwrite =>
      have hphase := h.phase.write hG h.settled hst hwrite
      exact h.quiet hst rfl hphase trivial
  | @work t e k r s s' hst hwork =>
      have hphase := h.phase.work hG h.settled hst hwork
      exact h.quiet hst rfl hphase trivial
  | @unlock t e r s hst hunlock =>
      obtain ⟨he, hwhole, hphase⟩ := h.phase.unlock hst hunlock
      have hs : P s := hG.next h.settled he hwhole
      have hsame := hG.same (hG.seen h.settled) (hG.seen hs)
      exact ⟨_, .commit (hturn hst) he hwhole, h.seen hs hsame hphase trivial⟩
  | @ret t e r hst =>
      have hphase := h.phase.outside .idle (houtside hst not_false) not_false
      exact ⟨_, .ret (hturn hst), h.seen h.settled (fun _ => rfl) hphase trivial⟩

/-- **A run of the steps is a run of whole calls**, label by label. -/
theorem follows_of_run (hG : G.Sound A P Q) (hs : P s) {ls : List (Label τ ε ρ)}
    (h : Trace (G.Step A) (World.start s .idle) ls w) :
    ∃ v, Trace (Atomic G.whole A) (World.start s .idle) ls v ∧ Follows G A P Q w v :=
  h.lockstep (.start hs) fun _ _ _ _ hfollows hstep => hfollows.step hG hstep

/-! ## What a run cannot end in -/

/-- A thread in the middle of a call has a step to make, or waits for a thread that has, or
for one whose work has faulted. -/
theorem Follows.progress (hG : G.Sound A P Q) (h : Follows G A P Q w v)
    (hbusy : w.stage t ≠ .idle) :
    (∃ t' st s l, w.stage t' ≠ .idle ∧ G.Step A w l (w.move t' st s)) ∨
      ∃ t' e k s f, w.stage t' = .inside e k s ∧ G.whole e v.shared = .error f := by
  cases h.phase with
  | free hfree hshared =>
      cases hst : w.stage t with
      | idle => exact absurd hst hbusy
      | called e =>
          cases hlook : G.look e w.shared with
          | inl r => exact Or.inl ⟨t, _, _, _, hbusy, .answer hst hlook⟩
          | inr k => exact Or.inl ⟨t, _, _, _, hbusy, .look hst hlook⟩
      | waiting e k =>
          obtain ⟨s', hlock, -⟩ := hG.lock h.settled
          rw [← hshared] at hlock
          exact Or.inl ⟨t, _, _, _, hbusy, .lock hst hlock⟩
      | inside e k s => exact absurd (Stage.inside_of_inside hst) (hfree t)
      | done e r => exact absurd (Stage.inside_of_done hst) (hfree t)
      | leaving e r => exact Or.inl ⟨t, _, _, _, hbusy, .ret hst⟩
  | @inside t' e k s hst _ _ hlook hlock =>
      cases hwork : G.work k s with
      | ok x =>
          exact Or.inl ⟨t', _, _, _, by rw [hst]; nofun, .work hst hwork⟩
      | error f =>
          refine Or.inr ⟨t', e, k, s, f, hst, ?_⟩
          unfold Guarded.whole
          simp only [hlook, hlock, Loops.ok_bind, hwork]
          rfl
  | @done t' e r s hst _ _ _ hunlock =>
      exact Or.inl ⟨t', _, _, _, by rw [hst]; nofun, .unlock hst hunlock⟩

end Moves

end Locking
