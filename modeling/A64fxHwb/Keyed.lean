/-
Lists whose entries carry a key, the way an intrusive linked list of records is
used: an entry is found by its key, changed in place, or unlinked, and each of
the three acts on the first entry with that key.

When the keys are pairwise different such a list is a finite map, and the
membership lemmas below say so: `mem_modify` and `mem_erase` describe the whole
list after the operation, which is all that an invariant of the form "for every
entry ..." needs. The lookup lemmas that do not mention `Nodup` hold of any
list; they are the frame rules for the entries with another key.
-/
import Mathlib.Data.List.Nodup
import Mathlib.Data.List.Perm.Basic
import Mathlib.Tactic.Common

set_option autoImplicit false

namespace Keyed

variable {α κ : Type*} [DecidableEq κ] (key : α → κ)

/-! ## The operations -/

/-- The first entry with key `k`. -/
def lookup (k : κ) (l : List α) : Option α := l.find? fun x => decide (key x = k)

/-- Change the first entry with key `k` in place. -/
def modify (k : κ) (f : α → α) : List α → List α
  | [] => []
  | x :: l => if key x = k then f x :: l else x :: modify k f l

/-- Unlink the first entry with key `k`. -/
def erase (k : κ) (l : List α) : List α := l.eraseP fun x => decide (key x = k)

section

variable {key}

omit [DecidableEq κ] in
/-- With pairwise different keys, the entries behind one with key `k` have another key. -/
theorem key_ne_of_nodup {k : κ} {y : α} {l : List α} (hn : ((y :: l).map key).Nodup)
    (hy : key y = k) : ∀ x ∈ l, key x ≠ k := by
  intro x hx h
  rw [List.map_cons, List.nodup_cons] at hn
  apply hn.1
  rw [hy, ← h]
  exact List.mem_map_of_mem hx

/-! ## Lookup -/

theorem lookup_mem {k : κ} {l : List α} {x : α} (h : lookup key k l = some x) : x ∈ l :=
  List.mem_of_find?_eq_some h

theorem lookup_key {k : κ} {l : List α} {x : α} (h : lookup key k l = some x) : key x = k := by
  simpa using List.find?_some h

theorem lookup_eq_none {k : κ} {l : List α} : lookup key k l = none ↔ ∀ x ∈ l, key x ≠ k := by
  simp [lookup]

@[simp] theorem lookup_cons_self {k : κ} {l : List α} {x : α} (h : key x = k) :
    lookup key k (x :: l) = some x := by
  simp [lookup, h]

theorem lookup_cons_of_ne {k : κ} {l : List α} {x : α} (h : key x ≠ k) :
    lookup key k (x :: l) = lookup key k l := by
  simp [lookup, h]

/-- With pairwise different keys, an entry is what its own key finds. -/
theorem lookup_of_mem {l : List α} (hn : (l.map key).Nodup) {x : α} (hx : x ∈ l) :
    lookup key (key x) l = some x := by
  induction l with
  | nil => cases hx
  | cons y l ih =>
      rcases List.mem_cons.mp hx with rfl | hx
      · exact lookup_cons_self rfl
      · -- the head has another key, so the search goes on
        have hne : key y ≠ key x := fun h => key_ne_of_nodup hn h x hx rfl
        rw [List.map_cons, List.nodup_cons] at hn
        rw [lookup_cons_of_ne hne, ih hn.2 hx]

/-- With pairwise different keys, two entries with one key are the same entry. -/
theorem eq_of_key {l : List α} (hn : (l.map key).Nodup) {x y : α} (hx : x ∈ l) (hy : y ∈ l)
    (h : key x = key y) : x = y := by
  have hxs := lookup_of_mem hn hx
  rw [h, lookup_of_mem hn hy] at hxs
  exact (Option.some.inj hxs).symm

/-- Two lists with pairwise different keys that find the same under every key have the
same entries. -/
theorem perm_of_lookup {l l' : List α} (hn : (l.map key).Nodup) (hn' : (l'.map key).Nodup)
    (h : ∀ k, lookup key k l = lookup key k l') : l.Perm l' := by
  refine (List.perm_ext_iff_of_nodup (.of_map key hn) (.of_map key hn')).mpr fun x => ?_
  constructor
  · intro hx
    have hfind := lookup_of_mem hn hx
    rw [h] at hfind
    exact lookup_mem hfind
  · intro hx
    have hfind := lookup_of_mem hn' hx
    rw [← h] at hfind
    exact lookup_mem hfind

/-! ## Modify -/

section Modify

variable {k : κ} {f : α → α}

@[simp] theorem length_modify (l : List α) : (modify key k f l).length = l.length := by
  induction l with
  | nil => rfl
  | cons y l ih => rw [modify]; split <;> simp [ih]

/-- An in-place change that keeps a field leaves the list of its values as it was. -/
theorem map_modify {β : Type*} {g : α → β} (hf : ∀ x, g (f x) = g x) (l : List α) :
    (modify key k f l).map g = l.map g := by
  induction l with
  | nil => rfl
  | cons y l ih =>
      rw [modify]
      split
      · simp [hf y]
      · simp [ih]

/-- An in-place change that keeps the key leaves the list of keys as it was. -/
theorem map_key_modify (hf : ∀ x, key x = k → key (f x) = k) (l : List α) :
    (modify key k f l).map key = l.map key := by
  induction l with
  | nil => rfl
  | cons y l ih =>
      rw [modify]
      split
      · rename_i hy; simp [hf y hy, hy]
      · simp [ih]

theorem lookup_modify_of_ne {k' : κ} (hf : ∀ x, key x = k → key (f x) = k) (hk : k' ≠ k)
    (l : List α) : lookup key k' (modify key k f l) = lookup key k' l := by
  induction l with
  | nil => rfl
  | cons y l ih =>
      rw [modify]
      split
      · -- the changed entry keeps its key, which is not the one looked for
        rename_i hy
        rw [lookup_cons_of_ne (by rw [hf y hy]; exact hk.symm),
          lookup_cons_of_ne (by rw [hy]; exact hk.symm)]
      · by_cases hy' : key y = k'
        · rw [lookup_cons_self hy', lookup_cons_self hy']
        · rw [lookup_cons_of_ne hy', lookup_cons_of_ne hy', ih]

theorem lookup_modify_self (hf : ∀ x, key x = k → key (f x) = k) (l : List α) :
    lookup key k (modify key k f l) = (lookup key k l).map f := by
  induction l with
  | nil => rfl
  | cons y l ih =>
      rw [modify]
      split
      · rename_i hy
        rw [lookup_cons_self (hf y hy), lookup_cons_self hy]
        rfl
      · rename_i hy
        rw [lookup_cons_of_ne hy, lookup_cons_of_ne hy, ih]

/-- What is found after an in-place change. -/
theorem lookup_modify (hf : ∀ x, key x = k → key (f x) = k) (k' : κ) (l : List α) :
    lookup key k' (modify key k f l) =
      (lookup key k' l).map fun x => if k' = k then f x else x := by
  by_cases hk : k' = k
  · subst hk
    rw [lookup_modify_self hf]
    simp only [if_true]
  · rw [lookup_modify_of_ne hf hk]
    simp only [if_neg hk, Option.map_id']

/-- The list after an in-place change: the entries with another key, and the
changed one. -/
theorem mem_modify {l : List α} (hn : (l.map key).Nodup) {a : α} (ha : a ∈ l) (hk : key a = k)
    (x : α) : x ∈ modify key k f l ↔ (x ∈ l ∧ key x ≠ k) ∨ x = f a := by
  induction l with
  | nil => cases ha
  | cons y l ih =>
      rw [modify]
      split
      · -- the entry is the head, and nothing behind it has its key
        rename_i hy
        have hl := key_ne_of_nodup hn hy
        have hya : a = y := by
          rcases List.mem_cons.mp ha with h | h
          · exact h
          · exact absurd hk (hl a h)
        subst hya
        rw [List.mem_cons, List.mem_cons]
        constructor
        · rintro (rfl | hx)
          · exact Or.inr rfl
          · exact Or.inl ⟨Or.inr hx, hl x hx⟩
        · rintro (⟨rfl | hx, hne⟩ | rfl)
          · exact absurd hy hne
          · exact Or.inr hx
          · exact Or.inl rfl
      · -- the entry is further down, and the head stays
        rename_i hy
        have hal : a ∈ l := by
          rcases List.mem_cons.mp ha with rfl | h
          · exact absurd hk hy
          · exact h
        rw [List.map_cons, List.nodup_cons] at hn
        rw [List.mem_cons, List.mem_cons, ih hn.2 hal]
        constructor
        · rintro (rfl | ⟨hx, hne⟩ | rfl)
          · exact Or.inl ⟨Or.inl rfl, hy⟩
          · exact Or.inl ⟨Or.inr hx, hne⟩
          · exact Or.inr rfl
        · rintro (⟨rfl | hx, hne⟩ | rfl)
          · exact Or.inl rfl
          · exact Or.inr (Or.inl ⟨hx, hne⟩)
          · exact Or.inr (Or.inr rfl)

/-- An entry of the changed list was there before, or is what the change made of one. -/
theorem mem_of_mem_modify {l : List α} {x : α} (h : x ∈ modify key k f l) :
    x ∈ l ∨ ∃ y ∈ l, key y = k ∧ x = f y := by
  induction l with
  | nil => exact Or.inl h
  | cons y l ih =>
      rw [modify] at h
      split at h
      · rename_i hy
        rcases List.mem_cons.mp h with rfl | h
        · exact Or.inr ⟨y, List.mem_cons_self, hy, rfl⟩
        · exact Or.inl (List.mem_cons_of_mem _ h)
      · rcases List.mem_cons.mp h with rfl | h
        · exact Or.inl List.mem_cons_self
        · rcases ih h with h | ⟨z, hz, hkey, hx⟩
          · exact Or.inl (List.mem_cons_of_mem _ h)
          · exact Or.inr ⟨z, List.mem_cons_of_mem _ hz, hkey, hx⟩

/-- A change seen through a map that keeps the keys. -/
theorem modify_map {β : Type*} {key' : β → κ} {g : α → β} {f' : β → β}
    (hkey : ∀ x, key' (g x) = key x) (hf : ∀ x, g (f x) = f' (g x)) (l : List α) :
    (modify key k f l).map g = modify key' k f' (l.map g) := by
  induction l with
  | nil => rfl
  | cons y l ih =>
      rw [List.map_cons, modify, modify, hkey]
      split
      · rw [List.map_cons, hf]
      · rw [List.map_cons, ih]

/-- Two changes of one entry in a row are one change. -/
theorem modify_modify (hf : ∀ x, key x = k → key (f x) = k) (g : α → α) (l : List α) :
    modify key k g (modify key k f l) = modify key k (fun x => g (f x)) l := by
  induction l with
  | nil => rfl
  | cons y l ih =>
      rw [modify, modify]
      split
      · rename_i hy; rw [modify, if_pos (hf y hy)]
      · rename_i hy; rw [modify, if_neg hy, ih]

/-- Two changes commute on the list if they are about different entries, or commute on
the one they are about. -/
theorem modify_comm {k' : κ} {g : α → α} (hf : ∀ x, key x = k → key (f x) = k)
    (hg : ∀ x, key x = k' → key (g x) = k') (hfg : k = k' → ∀ x, f (g x) = g (f x)) (l : List α) :
    modify key k f (modify key k' g l) = modify key k' g (modify key k f l) := by
  induction l with
  | nil => rfl
  | cons y l ih =>
      by_cases hy : key y = k
      · by_cases hy' : key y = k'
        · have hk : k = k' := hy.symm.trans hy'
          rw [modify, if_pos hy', modify, if_pos ((hg y hy').trans hk.symm), modify, if_pos hy,
            modify, if_pos ((hf y hy).trans hk), hfg hk]
        · have hfy : ¬key (f y) = k' := fun h => hy' (hy.trans ((hf y hy).symm.trans h))
          rw [modify, if_neg hy', modify, if_pos hy, modify, if_pos hy, modify, if_neg hfy]
      · by_cases hy' : key y = k'
        · have hgy : ¬key (g y) = k := fun h => hy (hy'.trans ((hg y hy').symm.trans h))
          rw [modify, if_pos hy', modify, if_neg hgy, modify, if_neg hy, modify, if_pos hy']
        · rw [modify, if_neg hy', modify, if_neg hy, modify, if_neg hy, modify, if_neg hy', ih]

/-- Only the value the change gives to the entry that is found matters. -/
theorem modify_congr {g : α → α} {l : List α} (h : ∀ x, lookup key k l = some x → f x = g x) :
    modify key k f l = modify key k g l := by
  induction l with
  | nil => rfl
  | cons y l ih =>
      rw [modify, modify]
      split
      · rename_i hy; rw [h y (lookup_cons_self hy)]
      · rename_i hy
        rw [ih fun x hx => h x (by rw [lookup_cons_of_ne hy]; exact hx)]

/-- A change that leaves the entry that is found as it was changes nothing. -/
theorem modify_eq_self {l : List α} (h : ∀ x, lookup key k l = some x → f x = x) :
    modify key k f l = l := by
  induction l with
  | nil => rfl
  | cons y l ih =>
      rw [modify]
      split
      · rename_i hy; rw [h y (lookup_cons_self hy)]
      · rename_i hy
        rw [ih fun x hx => h x (by rw [lookup_cons_of_ne hy]; exact hx)]

end Modify

/-! ## Erase -/

section Erase

variable {k : κ}

theorem erase_cons_self {x : α} {l : List α} (h : key x = k) : erase key k (x :: l) = l := by
  simp [erase, h]

theorem erase_cons_of_ne {x : α} {l : List α} (h : key x ≠ k) :
    erase key k (x :: l) = x :: erase key k l := by
  simp [erase, h]

theorem nodup_map_key_erase {l : List α} (hn : (l.map key).Nodup) :
    ((erase key k l).map key).Nodup :=
  hn.sublist ((List.eraseP_sublist).map key)

theorem mem_of_mem_erase {l : List α} {x : α} (h : x ∈ erase key k l) : x ∈ l :=
  List.mem_of_mem_eraseP h

/-- With pairwise different keys, unlinking leaves the entries with another key. -/
theorem mem_erase {l : List α} (hn : (l.map key).Nodup) (x : α) :
    x ∈ erase key k l ↔ x ∈ l ∧ key x ≠ k := by
  induction l with
  | nil => simp [erase]
  | cons y l ih =>
      by_cases hy : key y = k
      · have hl := key_ne_of_nodup hn hy
        rw [erase_cons_self hy, List.mem_cons]
        exact ⟨fun h => ⟨Or.inr h, hl x h⟩, fun ⟨h, hne⟩ => h.resolve_left fun e => hne (e ▸ hy)⟩
      · rw [List.map_cons, List.nodup_cons] at hn
        rw [erase_cons_of_ne hy, List.mem_cons, List.mem_cons, ih hn.2]
        constructor
        · rintro (rfl | ⟨h, hne⟩)
          · exact ⟨Or.inl rfl, hy⟩
          · exact ⟨Or.inr h, hne⟩
        · rintro ⟨rfl | h, hne⟩
          · exact Or.inl rfl
          · exact Or.inr ⟨h, hne⟩

theorem length_erase {l : List α} {a : α} (ha : a ∈ l) (hk : key a = k) :
    (erase key k l).length + 1 = l.length := by
  have hlen := List.length_eraseP_of_mem ha (p := fun x => decide (key x = k)) (by simp [hk])
  have hpos := List.length_pos_of_mem ha
  rw [erase, hlen]
  omega

/-- With pairwise different keys, nothing is left under a key that was unlinked. -/
theorem lookup_erase_self {l : List α} (hn : (l.map key).Nodup) :
    lookup key k (erase key k l) = none := by
  refine lookup_eq_none.mpr fun x hx => ?_
  exact ((mem_erase hn x).mp hx).2

theorem lookup_erase_of_ne {k' : κ} (hk : k' ≠ k) (l : List α) :
    lookup key k' (erase key k l) = lookup key k' l := by
  induction l with
  | nil => rfl
  | cons y l ih =>
      by_cases hy : key y = k
      · rw [erase_cons_self hy, lookup_cons_of_ne (by rw [hy]; exact hk.symm)]
      · rw [erase_cons_of_ne hy]
        by_cases hy' : key y = k'
        · rw [lookup_cons_self hy', lookup_cons_self hy']
        · rw [lookup_cons_of_ne hy', lookup_cons_of_ne hy', ih]

/-- Unlinking seen through a map that keeps the keys. -/
theorem erase_map {β : Type*} {key' : β → κ} {g : α → β} (hkey : ∀ x, key' (g x) = key x)
    (l : List α) : (erase key k l).map g = erase key' k (l.map g) := by
  induction l with
  | nil => rfl
  | cons y l ih =>
      by_cases hy : key y = k
      · rw [erase_cons_self hy, List.map_cons, erase_cons_self ((hkey y).trans hy)]
      · rw [erase_cons_of_ne hy, List.map_cons, List.map_cons,
          erase_cons_of_ne fun h => hy ((hkey y).symm.trans h), ih]

/-- The entry that is unlinked is the one that was found. -/
theorem perm_cons_erase {l : List α} {x : α} (h : lookup key k l = some x) :
    l.Perm (x :: erase key k l) := by
  induction l with
  | nil => cases h
  | cons y l ih =>
      by_cases hy : key y = k
      · rw [lookup_cons_self hy] at h
        rw [erase_cons_self hy, Option.some.inj h]
      · rw [lookup_cons_of_ne hy] at h
        rw [erase_cons_of_ne hy]
        exact ((ih h).cons y).trans (.swap x y _)

/-- An entry that is changed and then unlinked might as well not have been changed. -/
theorem erase_modify {f : α → α} (hf : ∀ x, key x = k → key (f x) = k) (l : List α) :
    erase key k (modify key k f l) = erase key k l := by
  induction l with
  | nil => rfl
  | cons y l ih =>
      rw [modify]
      split
      · rename_i hy; rw [erase_cons_self (hf y hy), erase_cons_self hy]
      · rename_i hy; rw [erase_cons_of_ne hy, erase_cons_of_ne hy, ih]

/-- Unlinking one entry and changing another commute. -/
theorem erase_modify_of_ne {k' : κ} {f : α → α} (hf : ∀ x, key x = k → key (f x) = k)
    (hk : k' ≠ k) (l : List α) :
    erase key k' (modify key k f l) = modify key k f (erase key k' l) := by
  induction l with
  | nil => rfl
  | cons y l ih =>
      by_cases hy : key y = k
      · have hy' : key y ≠ k' := fun h => hk (h.symm.trans hy)
        have hfy : key (f y) ≠ k' := fun h => hk (h.symm.trans (hf y hy))
        rw [modify, if_pos hy, erase_cons_of_ne hfy, erase_cons_of_ne hy', modify, if_pos hy]
      · rw [modify, if_neg hy]
        by_cases hy' : key y = k'
        · rw [erase_cons_self hy', erase_cons_self hy']
        · rw [erase_cons_of_ne hy', erase_cons_of_ne hy', modify, if_neg hy, ih]

/-- Unlinking every entry in turn, front to back, empties the list. -/
theorem foldl_erase_self (l : List α) :
    l.foldl (fun l' x => erase key (key x) l') l = [] := by
  -- each step unlinks the head of what is left, whatever follows the visited part
  suffices h : ∀ l r : List α, l.foldl (fun l' x => erase key (key x) l') (l ++ r) = r by
    simpa using h l []
  intro l
  induction l with
  | nil => intro r; rfl
  | cons y l ih =>
      intro r
      rw [List.foldl_cons, List.cons_append, erase_cons_self rfl]
      exact ih r

end Erase

end

end Keyed
