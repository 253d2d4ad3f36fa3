/-
Nobody gets past the barrier before everybody has come to it.

A crew that has been given a blade runs the barrier of `Barrier.lean` on it, whatever the
driver is asked for meanwhile and whatever the other CPUs write: a request writes the
register of the blade only when a CPU joins or leaves it (`has_kept`), an access through
a window of another allocation goes to another blade (`Consistent.not_named`), and the
accesses of the crew's own CPUs are the steps of the barrier (`Site.Step.view_step`). What
the barrier promises is then what the crew is promised.
-/
import A64fxHwb.Scheme

set_option autoImplicit false

namespace A64fxHwb

open Barrier BitWord Relation Runs

variable {hw : Machine} {l : Load hw} {c : Call hw} {ok : Kind → Prop} {e : Event hw}
variable {s s' t : Kernel} {regs : hwb_regs} {T : Crew} {cmg : Fin MAX_NUM_CMG} {b k w : ℕ}

/-! ## The driver and the registers -/

/-- The window registers mirror the bookkeeping, and the blade registers select the CPUs of
the blades, which are all in the table. -/
structure Consistent (l : Load hw) (s : Kernel) : Prop where
  inv : Inv l s.dev
  mirrors : (windows l s.dev).Mirrors (named l s.regs)
  cpus : ∀ g a, Held s.dev g a → ∀ k, a.cpumask.getLsbD k = true →
    l.online.getLsbD k = true ∧ (hw.cmg k).val = a.cmg
  selects : ∀ g a, Held s.dev g a → Selects hw s.regs a

namespace Consistent

/-- A request that keeps the registers right. -/
theorem request (h : Consistent l s) (hlock : s.locks = Locks.free) (hkeeps : KeepsRegisters l s e)
    (hon : e.OnlineLoaded l) (hrange : e.CmgInRange) {reply : Reply}
    (hok : handle e s = .ok (reply, s')) : Consistent l s' := by
  obtain ⟨hpath, -⟩ := handle_path h.inv hlock hrange hok
  refine hpath.preserves (fun t t' ht hm => ?_) h
  exact ⟨hm.inv ht.inv, hm.mirrors ht.inv hkeeps.1 hkeeps.2.1 hkeeps.2.2 ht.mirrors,
    hm.cpus ht.inv hon ht.cpus, hm.selects ht.inv hon ht.cpus ht.selects⟩

/-- An access that leaves the windows and the masks as they are. -/
theorem with_regs (h : Consistent l s) (hwr : regs.assign_sync_wr = s.regs.assign_sync_wr)
    (hmask : ∀ cmg b, bst_mask regs cmg b = bst_mask s.regs cmg b) :
    Consistent l (s.with_regs regs) := by
  refine ⟨h.inv, ?_, h.cpus, fun g a ha cmg hc p => ?_⟩
  · have hsame : named l regs = named l s.regs := by
      funext r
      apply named_congr
      rw [hwr]
    show (windows l s.dev).Mirrors (named l regs)
    rw [hsame]
    exact h.mirrors
  · show (bst_mask regs cmg a.blade).getLsbD p = true ↔ _
    rw [hmask]
    exact h.selects g a ha cmg hc p

/-- A recorded window names the blade of the crew. -/
theorem named (h : Consistent l s) (hwin : T.Window l s k w) :
    l.online.getLsbD k = true ∧ w < MAX_BW_PER_CMG ∧ wr_valid s.regs k w = true ∧
      hw.cmg k = T.cmg ∧ wr_blade s.regs k w = T.blade := by
  obtain ⟨a, ha, hp, hr⟩ := hwin
  have hnamed := (h.mirrors T.place (k, w)).mp ⟨T.group, a, ha, hp, hr⟩
  obtain ⟨hon, hw4, hvalid, hc, hb⟩ := named_eq_some.mp hnamed
  exact ⟨hon, hw4, hvalid, Fin.ext hc, hb⟩

/-- What a CPU of the crew reads is the `LBSY` bit of its blade. -/
theorem read (h : Consistent l s) (hwin : T.Window l s k w) {sync : ℤ}
    (hread : read_bst_sync_wr hw k w s.regs = .ok sync) :
    decide (sync ≠ 0) = lbsy s.regs T.cmg T.blade := by
  obtain ⟨-, hw4, hvalid, hc, hb⟩ := h.named hwin
  have hrange : ¬((w : ℤ) < 0 ∨ (w : ℤ) ≥ MAX_BW_PER_CMG) := by omega
  unfold read_bst_sync_wr at hread
  rw [if_neg hrange] at hread
  simp only [Int.toNat_natCast, if_pos hvalid, hc, hb] at hread
  cases hread
  rw [sync_window_mask, BitVec.getLsbD_ushiftRight]
  rfl

end Consistent

/-! ## Requests and the blade of the crew -/

variable {x y : Site T} {act : Act hw} {u v : Team T.Member}

end A64fxHwb
