/-
Machine words read as finite sets of bit numbers.

The two halves of a bitmap allocator need the same few facts: what one bit is
after a `set` or a `clear`, how many bits are set afterwards, and what a search
for the first clear bit returns. They are stated at a general width `n`, and
every later file reads a word only through `BitVec.getLsbD`, so no proof ever
looks at the `|||` and `&&&` the operations are made of.
-/
import Mathlib.Data.Finset.Card
import Mathlib.Data.Finset.Range
import Mathlib.Order.Interval.Finset.Fin
import Mathlib.Tactic.Common

set_option autoImplicit false

namespace BitWord

variable {n : ℕ}

/-! ## One bit -/

/-- The word `w` with bit `i` set. -/
def setBit (w : BitVec n) (i : ℕ) : BitVec n := w ||| BitVec.twoPow n i

/-- The word `w` with bit `i` cleared. -/
def clearBit (w : BitVec n) (i : ℕ) : BitVec n := w &&& ~~~(BitVec.twoPow n i)

@[simp] theorem getLsbD_setBit (w : BitVec n) (i j : ℕ) :
    (setBit w i).getLsbD j = (w.getLsbD j || (decide (i < n) && decide (i = j))) := by
  simp only [setBit, BitVec.getLsbD_or, BitVec.getLsbD_twoPow]

@[simp] theorem getLsbD_clearBit (w : BitVec n) (i j : ℕ) :
    (clearBit w i).getLsbD j = (w.getLsbD j && !decide (i = j)) := by
  simp only [clearBit, BitVec.getLsbD_and, BitVec.getLsbD_not, BitVec.getLsbD_twoPow]
  by_cases hj : j < n
  · by_cases hij : i = j
    · subst hij; simp [hj]
    · simp [hij, hj]
  · -- beyond the width neither side has a bit
    rw [BitVec.getLsbD_of_ge w j (by omega)]; simp

/-- The word `w` with bit `i` set to `v`. -/
def writeBit (w : BitVec n) (i : ℕ) (v : Bool) : BitVec n := if v then setBit w i else clearBit w i

/-- The word is zero exactly when no bit is set. -/
theorem eq_zero_iff (w : BitVec n) : w = 0 ↔ ∀ i, w.getLsbD i = false := by
  constructor
  · rintro rfl i
    simp
  · intro h
    exact BitVec.eq_of_getLsbD_eq fun i _ => by rw [h i]; simp

theorem exists_getLsbD_of_ne_zero {w : BitVec n} (h : w ≠ 0) : ∃ i, w.getLsbD i = true := by
  by_contra hno
  refine h ((eq_zero_iff w).mpr fun i => ?_)
  exact Bool.eq_false_iff.mpr fun hi => hno ⟨i, hi⟩

/-! ## The bits of a word in ascending order -/

/-- The numbers of the set bits, lowest first: the order a bitmap iterator
visits them in. -/
def bits (w : BitVec n) : List ℕ := (List.range n).filter fun i => w.getLsbD i

@[simp] theorem mem_bits (w : BitVec n) (i : ℕ) : i ∈ bits w ↔ w.getLsbD i = true := by
  simp only [bits, List.mem_filter, List.mem_range]
  exact ⟨fun h => h.2, fun h => ⟨BitVec.lt_of_getLsbD h, h⟩⟩

theorem nodup_bits (w : BitVec n) : (bits w).Nodup :=
  List.Nodup.filter _ List.nodup_range

/-- The number of set bits. -/
def weight (w : BitVec n) : ℕ := (bits w).length

/-- The lowest set bit (0 when there is none). -/
def lowest (w : BitVec n) : ℕ := (bits w).headD 0

theorem getLsbD_lowest {w : BitVec n} (h : w ≠ 0) : w.getLsbD (lowest w) = true := by
  obtain ⟨i, hi⟩ := exists_getLsbD_of_ne_zero h
  rw [← mem_bits] at hi ⊢
  unfold lowest
  cases hb : bits w with
  | nil => rw [hb] at hi; cases hi
  | cons x l => exact List.mem_cons_self

/-- The set bits as a finite set, for counting. -/
def support (w : BitVec n) : Finset ℕ := (bits w).toFinset

@[simp] theorem mem_support (w : BitVec n) (i : ℕ) : i ∈ support w ↔ w.getLsbD i = true := by
  simp [support]

theorem weight_eq_card (w : BitVec n) : weight w = (support w).card :=
  (List.toFinset_card_of_nodup (nodup_bits w)).symm

theorem weight_eq_zero_iff (w : BitVec n) : weight w = 0 ↔ w = 0 := by
  rw [weight_eq_card, Finset.card_eq_zero, eq_zero_iff]
  constructor
  · intro h i
    refine Bool.eq_false_iff.mpr fun hi => ?_
    have : i ∈ support w := (mem_support w i).mpr hi
    rw [h] at this
    exact absurd this (Finset.notMem_empty i)
  · intro h
    refine Finset.eq_empty_of_forall_notMem fun i hi => ?_
    rw [mem_support, h i] at hi
    exact Bool.noConfusion hi

@[simp] theorem weight_zero : weight (0 : BitVec n) = 0 := (weight_eq_zero_iff 0).mpr rfl

/-- Setting a clear bit adds one to the weight. -/
theorem weight_setBit {w : BitVec n} {i : ℕ} (hi : i < n) (h : w.getLsbD i = false) :
    weight (setBit w i) = weight w + 1 := by
  -- as a finite set, the word gets one new element
  have hins : support (setBit w i) = insert i (support w) := by
    ext j
    simp only [mem_support, getLsbD_setBit, Finset.mem_insert, hi, decide_true, Bool.true_and,
      Bool.or_eq_true, decide_eq_true_eq]
    tauto
  rw [weight_eq_card, weight_eq_card, hins, Finset.card_insert_of_notMem]
  rw [mem_support, h]
  exact Bool.false_ne_true

/-- Setting a bit that is set already changes nothing. -/
theorem setBit_of_getLsbD {w : BitVec n} {i : ℕ} (h : w.getLsbD i = true) : setBit w i = w := by
  refine BitVec.eq_of_getLsbD_eq fun j _ => ?_
  rw [getLsbD_setBit]
  by_cases hij : i = j
  · subst hij; simp [h]
  · simp [hij]

/-- Clearing a bit twice is clearing it once. -/
theorem clearBit_clearBit (w : BitVec n) (i : ℕ) : clearBit (clearBit w i) i = clearBit w i := by
  apply BitVec.eq_of_getLsbD_eq
  intro j _
  rw [getLsbD_clearBit, getLsbD_clearBit, Bool.and_assoc, Bool.and_self]

/-- Clearing a bit that has been set brings the word back in which it was clear. -/
theorem clearBit_setBit {w : BitVec n} {i : ℕ} (h : w.getLsbD i = false) :
    clearBit (setBit w i) i = w := by
  apply BitVec.eq_of_getLsbD_eq
  intro j hj
  rw [getLsbD_clearBit, getLsbD_setBit]
  by_cases hij : i = j
  · rw [← hij, h]
    simp
  · simp [hij]

/-- Clearing a set bit takes one off the weight. -/
theorem weight_clearBit {w : BitVec n} {i : ℕ} (h : w.getLsbD i = true) :
    weight (clearBit w i) + 1 = weight w := by
  -- as a finite set, the word loses the element `i`
  have hers : support (clearBit w i) = (support w).erase i := by
    ext j
    simp only [mem_support, getLsbD_clearBit, Finset.mem_erase, Bool.and_eq_true,
      Bool.not_eq_true', decide_eq_false_iff_not]
    exact ⟨fun ⟨h1, h2⟩ => ⟨fun h3 => h2 h3.symm, h1⟩, fun ⟨h1, h2⟩ => ⟨h2, fun h3 => h1 h3.symm⟩⟩
  rw [weight_eq_card, weight_eq_card, hers]
  exact Finset.card_erase_add_one ((mem_support w i).mpr h)

/-- A loop that sets one bit for each element it selects sets exactly the bits
of the selected elements. -/
theorem getLsbD_foldl_setBit_if {α : Type*} (sel : α → Prop) [DecidablePred sel] (f : α → ℕ)
    (l : List α) (w : BitVec n) (j : ℕ) :
    (l.foldl (fun m x => if sel x then setBit m (f x) else m) w).getLsbD j = true ↔
      w.getLsbD j = true ∨ ∃ x ∈ l, sel x ∧ f x = j ∧ j < n := by
  induction l generalizing w with
  | nil => simp
  | cons x l ih =>
      rw [List.foldl_cons, ih]
      by_cases hx : sel x
      · -- `x` is selected: its bit is in the word the rest of the loop starts with
        rw [if_pos hx, getLsbD_setBit]
        simp only [Bool.or_eq_true, Bool.and_eq_true, decide_eq_true_eq, List.mem_cons]
        constructor
        · rintro ((h | ⟨h1, rfl⟩) | ⟨y, hy, h⟩)
          · exact Or.inl h
          · exact Or.inr ⟨x, Or.inl rfl, hx, rfl, h1⟩
          · exact Or.inr ⟨y, Or.inr hy, h⟩
        · rintro (h | ⟨y, rfl | hy, h⟩)
          · exact Or.inl (Or.inl h)
          · exact Or.inl (Or.inr ⟨h.2.1 ▸ h.2.2, h.2.1⟩)
          · exact Or.inr ⟨y, hy, h⟩
      · rw [if_neg hx]
        constructor
        · rintro (h | ⟨y, hy, h⟩)
          · exact Or.inl h
          · exact Or.inr ⟨y, List.mem_cons_of_mem _ hy, h⟩
        · rintro (h | ⟨y, hy, h⟩)
          · exact Or.inl h
          · rcases List.mem_cons.mp hy with rfl | hy
            · exact absurd h.1 hx
            · exact Or.inr ⟨y, hy, h⟩

/-- A loop that sets one bit for each element sets exactly these bits. -/
theorem getLsbD_foldl_setBit {α : Type*} (f : α → ℕ) (l : List α) (w : BitVec n) (j : ℕ) :
    (l.foldl (fun m x => setBit m (f x)) w).getLsbD j = true ↔
      w.getLsbD j = true ∨ ∃ x ∈ l, f x = j ∧ j < n := by
  have hall := getLsbD_foldl_setBit_if (fun _ => True) f l w j
  simpa only [if_true, true_and] using hall

/-! ## Counting a prefix -/

/-- Counting along the slots is counting. -/
theorem countP_finRange {m : ℕ} (P : Fin m → Prop) [DecidablePred P] :
    (List.finRange m).countP (fun i => decide (P i)) = (Finset.univ.filter P).card := by
  rw [List.countP_eq_length_filter, ← List.toFinset_card_of_nodup
    (List.Nodup.filter _ (List.nodup_finRange m))]
  congr 1
  ext i
  simp

/-- The slots a downward closed property selects are the first ones, as many as
it selects. -/
theorem lt_countP_iff {m : ℕ} (P : Fin m → Prop) [DecidablePred P]
    (hdown : ∀ i j : Fin m, i ≤ j → P j → P i) (j : Fin m) :
    j.val < (List.finRange m).countP (fun i => decide (P i)) ↔ P j := by
  rw [countP_finRange]
  constructor
  · intro hlt
    by_contra hP
    -- nothing from `j` on is selected, so at most `j` slots are
    have hsub : Finset.univ.filter P ⊆ Finset.Iio j := by
      intro i hi
      rw [Finset.mem_filter] at hi
      rw [Finset.mem_Iio]
      by_contra hge
      exact hP (hdown j i (not_lt.mp hge) hi.2)
    have hle := Finset.card_le_card hsub
    rw [Fin.card_Iio] at hle
    omega
  · intro hP
    -- `j` and everything below it are selected: more than `j` slots
    have hsub : Finset.Iic j ⊆ Finset.univ.filter P := by
      intro i hi
      rw [Finset.mem_Iic] at hi
      rw [Finset.mem_filter]
      exact ⟨Finset.mem_univ i, hdown i j hi hP⟩
    have hle := Finset.card_le_card hsub
    rw [Fin.card_Iic] at hle
    omega

/-- When the first slots, as many as a property selects, all have it, no other
slot does. -/
theorem lt_countP_of_prefix {m : ℕ} (P : Fin m → Prop) [DecidablePred P]
    (hfirst : ∀ i : Fin m, i.val < (List.finRange m).countP (fun i => decide (P i)) → P i)
    {j : Fin m} (hj : P j) : j.val < (List.finRange m).countP (fun i => decide (P i)) := by
  rw [countP_finRange] at hfirst ⊢
  by_contra hge
  have hlt : (Finset.univ.filter P).card < m := lt_of_le_of_lt (not_lt.mp hge) j.isLt
  -- the slots below the count and `j` on top of them are one too many
  have hsub : insert j (Finset.Iio ⟨(Finset.univ.filter P).card, hlt⟩) ⊆ Finset.univ.filter P := by
    intro i hi
    rw [Finset.mem_filter]
    refine ⟨Finset.mem_univ i, ?_⟩
    rcases Finset.mem_insert.mp hi with rfl | hi
    · exact hj
    · have hlt' := Finset.mem_Iio.mp hi
      exact hfirst i hlt'
  have hle := Finset.card_le_card hsub
  rw [Finset.card_insert_of_notMem, Fin.card_Iio] at hle
  · exact absurd hle (Nat.not_succ_le_self _)
  · rw [Finset.mem_Iio]
    exact hge

/-! ## Searching for a clear bit -/

/-- The lowest clear bit below `size`, or `size` when there is none. -/
def firstZero (w : BitVec n) (size : ℕ) : ℕ :=
  ((List.range size).find? fun i => !w.getLsbD i).getD size

/-- A search that ends below `size` found a clear bit, and every lower bit is set. -/
theorem firstZero_spec {w : BitVec n} {size : ℕ} (h : firstZero w size < size) :
    w.getLsbD (firstZero w size) = false ∧ ∀ i < firstZero w size, w.getLsbD i = true := by
  unfold firstZero at h ⊢
  cases hf : (List.range size).find? (fun i => !w.getLsbD i) with
  | none => rw [hf] at h; exact absurd h (by simp)
  | some k =>
      rw [List.find?_range_eq_some] at hf
      refine ⟨by simpa using hf.1, fun i hi => ?_⟩
      simpa using hf.2.2 i hi

/-- A search ends below `size` exactly when there is a clear bit below it. -/
theorem firstZero_lt_iff {w : BitVec n} {size : ℕ} :
    firstZero w size < size ↔ ∃ i < size, w.getLsbD i = false := by
  constructor
  · intro h
    exact ⟨_, h, (firstZero_spec h).1⟩
  · rintro ⟨i, hi, hbit⟩
    unfold firstZero
    cases hf : (List.range size).find? (fun i => !w.getLsbD i) with
    | none =>
        -- the clear bit is among those that were tested
        have htest := List.find?_eq_none.mp hf i (List.mem_range.mpr hi)
        rw [hbit] at htest
        exact absurd rfl htest
    | some k => exact List.mem_range.mp (List.mem_of_find?_eq_some hf)

end BitWord
