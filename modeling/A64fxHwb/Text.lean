/-
Printing into a page, and reading back what was printed.

`decimal` and `hexadecimal` are the conversions `%d` and `%.<n>lx` of the kernel's
`printf`, `snprintf` and `scnprintf` what the kernel does with the characters, and
`append_printf` is the idiom `len += snprintf(&buf[len], size - len, ...)`, in which the
size is an unsigned word and wraps once `len` has passed it.

The other half reads: the text of a page, its lines, the words of a line and the numbers
they stand for. Every conversion reads back as the number it was printed from.
-/
import Mathlib.Data.List.Basic
import Mathlib.Data.Nat.Digits.Defs
import Mathlib.Tactic.Common

set_option autoImplicit false

namespace Printf

/-! ## Conversions -/

/-- `%d`. -/
def decimal (x : ℤ) : List Char :=
  if x < 0 then '-' :: Nat.toDigits 10 x.natAbs else Nat.toDigits 10 x.natAbs

/-- `%.<prec>lx`: at least `prec` digits. -/
def hexadecimal (prec x : ℕ) : List Char :=
  List.replicate (prec - (Nat.toDigits 16 x).length) '0' ++ Nat.toDigits 16 x

/-- The number a digit stands for. -/
def digit (base : ℕ) (c : Char) : Option ℕ :=
  (List.range base).find? fun d => d.digitChar = c

/-- The number a word of digits stands for. -/
def natural (base : ℕ) (cs : List Char) : Option ℕ :=
  if cs = [] then none
  else cs.foldlM (fun n c => (digit base c).map (base * n + ·)) 0

/-- The number a word of decimal digits stands for, which may have a sign. -/
def integer (cs : List Char) : Option ℤ :=
  if cs.head? = some '-' then (natural 10 cs.tail).map fun n : ℕ => -(n : ℤ)
  else (natural 10 cs).map fun n : ℕ => (n : ℤ)

section Digits

variable {b n d : ℕ} {c : Char}

theorem digitChar_inj {d d' : ℕ} (hd : d < 16) (hd' : d' < 16) (h : d.digitChar = d'.digitChar) :
    d = d' := by
  have hinj : ∀ i j : Fin 16, i.val.digitChar = j.val.digitChar → i.val = j.val := by decide
  exact hinj ⟨d, hd⟩ ⟨d', hd'⟩ h

theorem digit_digitChar (hb : b ≤ 16) (hd : d < b) : digit b d.digitChar = some d := by
  unfold digit
  rw [List.find?_range_eq_some]
  simp only [decide_eq_true_eq, List.mem_range, hd, true_and, Bool.not_eq_eq_eq_not, Bool.not_true,
    decide_eq_false_iff_not]
  intro d' hd' heq
  have hdd := digitChar_inj (by omega) (by omega) heq
  omega

/-- The digits of a number are digits of its base. -/
theorem mem_toDigits (hb : 1 < b) (hc : c ∈ Nat.toDigits b n) : ∃ d < b, c = d.digitChar := by
  induction n using Nat.strong_induction_on with
  | _ n ih =>
    rw [Nat.toDigits_eq_if hb] at hc
    split_ifs at hc with hn
    · rw [List.mem_singleton] at hc
      exact ⟨n, hn, hc⟩
    · rw [List.mem_append, List.mem_singleton] at hc
      rcases hc with hc | hc
      · exact ih (n / b) (Nat.div_lt_self (by omega) hb) hc
      · exact ⟨n % b, Nat.mod_lt n (by omega), hc⟩

/-- No character that is not a digit is in the digits of a number. -/
theorem notMem_toDigits (hb : 1 < b) (hb16 : b ≤ 16) (hc : ∀ d : Fin 16, c ≠ d.val.digitChar) :
    c ∉ Nat.toDigits b n := by
  intro hmem
  obtain ⟨d, hd, hcd⟩ := mem_toDigits hb hmem
  exact hc ⟨d, by omega⟩ hcd

theorem natural_append_digit {cs : List Char} {n : ℕ} (hb : b ≤ 16) (hcs : natural b cs = some n)
    (hd : d < b) : natural b (cs ++ [d.digitChar]) = some (b * n + d) := by
  unfold natural at hcs ⊢
  split_ifs at hcs
  rw [if_neg (by simp), List.foldlM_append, hcs]
  simp only [Option.bind_eq_bind, Option.bind_some, List.foldlM_cons, digit_digitChar hb hd,
    Option.map_some, List.foldlM_nil, Option.pure_def]

/-- The digits of a number stand for it. -/
theorem natural_toDigits (hb : 1 < b) (hb16 : b ≤ 16) (n : ℕ) :
    natural b (Nat.toDigits b n) = some n := by
  induction n using Nat.strong_induction_on with
  | _ n ih =>
    rw [Nat.toDigits_eq_if hb]
    split_ifs with hn
    · unfold natural
      rw [if_neg (List.cons_ne_nil _ _), List.foldlM_cons, digit_digitChar hb16 hn]
      simp only [mul_zero, zero_add, Option.map_some, Option.bind_eq_bind, Option.bind_some,
        List.foldlM_nil, Option.pure_def]
    · have hquot := ih (n / b) (Nat.div_lt_self (by omega) hb)
      rw [natural_append_digit hb16 hquot (Nat.mod_lt n (by omega)), Nat.div_add_mod]

/-- Leading zeros do not count. -/
theorem natural_replicate_zero {cs : List Char} (hcs : cs ≠ []) (k : ℕ) :
    natural 16 (List.replicate k '0' ++ cs) = natural 16 cs := by
  have hzero : digit 16 '0' = some 0 := by decide
  unfold natural
  rw [if_neg (by simp [hcs]), if_neg hcs]
  induction k with
  | zero => rw [List.replicate_zero, List.nil_append]
  | succ k ih =>
      rw [List.replicate_succ, List.cons_append, List.foldlM_cons, hzero]
      simpa only [mul_zero, add_zero, Option.map_some, Option.bind_eq_bind, Option.bind_some]
        using ih

end Digits

/-- **A decimal reads back.** -/
theorem integer_decimal (x : ℤ) : integer (decimal x) = some x := by
  have hread : natural 10 (Nat.toDigits 10 x.natAbs) = some x.natAbs :=
    natural_toDigits (by decide) (by decide) x.natAbs
  unfold integer decimal
  by_cases hx : x < 0
  · rw [if_pos hx, List.head?_cons, if_pos rfl, List.tail_cons, hread, Option.map_some]
    congr 1
    omega
  · -- no digit is a sign
    have hsign : (Nat.toDigits 10 x.natAbs).head? ≠ some '-' := by
      intro h
      exact notMem_toDigits (by decide) (by decide) (by decide) (List.mem_of_mem_head? h)
    rw [if_neg hx, if_neg hsign, hread, Option.map_some]
    congr 1
    omega

/-- **A hexadecimal reads back.** -/
theorem natural_hexadecimal (prec x : ℕ) : natural 16 (hexadecimal prec x) = some x := by
  unfold hexadecimal
  rw [natural_replicate_zero Nat.toDigits_ne_nil, natural_toDigits (by decide) (by decide)]

/-- A conversion has digits and a sign only. -/
theorem notMem_decimal {c : Char} (hsign : c ≠ '-') (hc : ∀ d : Fin 16, c ≠ d.val.digitChar)
    (x : ℤ) : c ∉ decimal x := by
  have hdigits : c ∉ Nat.toDigits 10 x.natAbs := notMem_toDigits (by decide) (by decide) hc
  unfold decimal
  split_ifs
  · rw [List.mem_cons, not_or]
    exact ⟨hsign, hdigits⟩
  · exact hdigits

theorem notMem_hexadecimal {c : Char} (hc : ∀ d : Fin 16, c ≠ d.val.digitChar) (prec x : ℕ) :
    c ∉ hexadecimal prec x := by
  unfold hexadecimal
  rw [List.mem_append, not_or]
  refine ⟨fun hmem => ?_, notMem_toDigits (by decide) (by decide) hc⟩
  exact hc ⟨0, by decide⟩ (List.eq_of_mem_replicate hmem)

theorem length_decimal {x : ℤ} {k : ℕ} (hk : 0 < k) (h : x.natAbs < 10 ^ k) :
    (decimal x).length ≤ k + 1 := by
  have hlen := (Nat.length_toDigits_le_iff (by decide) hk).mpr h
  unfold decimal
  split_ifs
  · rw [List.length_cons]
    omega
  · omega

theorem length_hexadecimal {prec x k : ℕ} (hk : 0 < k) (hprec : prec ≤ k) (h : x < 16 ^ k) :
    (hexadecimal prec x).length ≤ k := by
  have hlen := (Nat.length_toDigits_le_iff (by decide) hk).mpr h
  unfold hexadecimal
  rw [List.length_append, List.length_replicate]
  omega

/-! ## Lines and words -/

/-- The lines of a text, each of which ends with a newline. -/
def lines (cs : List Char) : List (List Char) := (cs.splitOn '\n').dropLast

/-- The words of a line, with a blank between them. -/
def words (cs : List Char) : List (List Char) := cs.splitOn ' '

/-- **The lines of a text that was printed line by line.** -/
theorem lines_flatMap {ls : List (List Char)} (h : ∀ l ∈ ls, '\n' ∉ l) :
    lines (ls.flatMap (· ++ ['\n'])) = ls := by
  have hsplit : (ls.flatMap (· ++ ['\n'])).splitOn '\n' = ls ++ [[]] := by
    induction ls with
    | nil => rfl
    | cons l ls ih =>
        have hl : '\n' ∉ l := h l List.mem_cons_self
        rw [List.flatMap_cons, List.append_assoc, List.singleton_append,
          List.splitOn_append_cons_self_of_not_mem hl,
          ih fun l' hl' => h l' (List.mem_cons_of_mem _ hl'), List.cons_append]
  unfold lines
  rw [hsplit, List.dropLast_concat]

theorem lines_singleton {l : List Char} (h : '\n' ∉ l) : lines (l ++ ['\n']) = [l] := by
  have hl := @lines_flatMap [l] fun l' hl' => List.mem_singleton.mp hl' ▸ h
  rwa [List.flatMap_singleton] at hl

theorem words_pair {u v : List Char} (hu : ' ' ∉ u) (hv : ' ' ∉ v) :
    words (u ++ ' ' :: v) = [u, v] := by
  unfold words
  rw [List.splitOn_append_cons_self_of_not_mem hu, List.splitOn_eq_singleton hv]

/-- What two words of a line stand for. -/
def row {α β : Type*} (f : List Char → Option α) (g : List Char → Option β) (line : List Char) :
    Option (α × β) :=
  match words line with
  | [u, v] => (f u).bind fun a => (g v).map fun b => (a, b)
  | _ => none

/-- What the lines of a text with two words to a line stand for. -/
def rows {α β : Type*} (f : List Char → Option α) (g : List Char → Option β) (cs : List Char) :
    Option (List (α × β)) :=
  (lines cs).mapM (row f g)

/-- **Rows that were printed read back**, when their words do. -/
theorem rows_flatMap {ι α β : Type*} {f : List Char → Option α} {g : List Char → Option β}
    {u v : ι → List Char} {a : ι → α} {b : ι → β} (hf : ∀ x, f (u x) = some (a x))
    (hg : ∀ x, g (v x) = some (b x)) (hu : ∀ x, ' ' ∉ u x ∧ '\n' ∉ u x)
    (hv : ∀ x, ' ' ∉ v x ∧ '\n' ∉ v x) (xs : List ι) :
    rows f g (xs.flatMap fun x => (u x ++ ' ' :: v x) ++ ['\n']) =
      some (xs.map fun x => (a x, b x)) := by
  have hline : ∀ x, row f g (u x ++ ' ' :: v x) = some (a x, b x) := by
    intro x
    unfold row
    rw [words_pair (hu x).1 (hv x).1]
    simp only [hf, hg, Option.bind_some, Option.map_some]
  have hlines : lines (xs.flatMap fun x => (u x ++ ' ' :: v x) ++ ['\n']) =
      xs.map fun x => u x ++ ' ' :: v x := by
    rw [← List.flatMap_map (f := fun x => u x ++ ' ' :: v x) (g := (· ++ ['\n']))]
    apply lines_flatMap
    intro l hl
    obtain ⟨x, -, rfl⟩ := List.mem_map.mp hl
    rw [List.mem_append, List.mem_cons, not_or, not_or]
    exact ⟨(hu x).2, by decide, (hv x).2⟩
  unfold rows
  rw [hlines, List.mapM_map]
  have hpure : (row f g ∘ fun x => u x ++ ' ' :: v x) = fun x => pure (a x, b x) := funext hline
  rw [hpure, List.mapM_pure]
  rfl

/-- A number to each line. -/
theorem numbers_flatMap (prec : ℕ) (xs : List ℕ) :
    (lines (xs.flatMap fun x => hexadecimal prec x ++ ['\n'])).mapM (natural 16) = some xs := by
  have hlines : lines (xs.flatMap fun x => hexadecimal prec x ++ ['\n']) =
      xs.map (hexadecimal prec) := by
    rw [← List.flatMap_map (f := hexadecimal prec) (g := (· ++ ['\n']))]
    apply lines_flatMap
    intro l hl
    obtain ⟨x, -, rfl⟩ := List.mem_map.mp hl
    exact notMem_hexadecimal (by decide) prec x
  have hpure : (natural 16 ∘ hexadecimal prec) = pure := funext (natural_hexadecimal prec)
  have hid := List.mapM_pure (m := Option) (l := xs) (f := id)
  rw [List.map_id] at hid
  rw [hlines, List.mapM_map, hpure]
  exact hid

/-- All numbers on one line. -/
theorem integers_intercalate {xs : List ℤ} (hxs : xs ≠ []) :
    (words ([' '].intercalate (xs.map decimal))).mapM integer = some xs := by
  have hwords : words ([' '].intercalate (xs.map decimal)) = xs.map decimal := by
    apply List.splitOn_intercalate
    · intro l hl
      obtain ⟨x, -, rfl⟩ := List.mem_map.mp hl
      exact notMem_decimal (by decide) (by decide) x
    · rwa [ne_eq, List.map_eq_nil_iff]
  have hpure : (integer ∘ decimal) = pure := funext integer_decimal
  have hid := List.mapM_pure (m := Option) (l := xs) (f := id)
  rw [List.map_id] at hid
  rw [hwords, List.mapM_map, hpure]
  exact hid

theorem length_flatMap_le {α : Type*} {f : α → List Char} {k : ℕ} {xs : List α}
    (h : ∀ x ∈ xs, (f x).length ≤ k) : (xs.flatMap f).length ≤ xs.length * k := by
  induction xs with
  | nil => exact Nat.zero_le _
  | cons x xs ih =>
      have hx := h x List.mem_cons_self
      have hxs := ih fun y hy => h y (List.mem_cons_of_mem _ hy)
      rw [List.flatMap_cons, List.length_append, List.length_cons, Nat.succ_mul]
      omega

/-! ## Pages -/

/-- The memory from a buffer on. -/
abbrev Page := ℕ → Char

/-- The characters are put at `off`. -/
def write (page : Page) (off : ℕ) (cs : List Char) : Page := fun i =>
  if off ≤ i then (cs[i - off]?).getD (page i) else page i

/-- The first `n` characters of a page. -/
def text (page : Page) (n : ℕ) : List Char := (List.range n).map page

theorem text_write (page : Page) (n : ℕ) {cs : List Char} {k : ℕ} (hk : k ≤ cs.length) :
    text (write page n cs) (n + k) = text page n ++ cs.take k := by
  apply List.ext_getElem
  · unfold text
    rw [List.length_map, List.length_range, List.length_append, List.length_map, List.length_range,
      List.length_take]
    omega
  · intro i hi hi'
    unfold text write at *
    rw [List.length_map, List.length_range] at hi
    rw [List.getElem_map, List.getElem_range, List.getElem_append]
    by_cases hin : i < n
    · rw [if_neg (by omega), dif_pos (by simpa using hin), List.getElem_map, List.getElem_range]
    · rw [if_pos (by omega), dif_neg (by simpa using hin), List.getElem_take]
      simp only [List.length_map, List.length_range]
      rw [List.getElem?_eq_getElem (by omega), Option.getD_some]

/-- What is put behind the text leaves it as it is. -/
theorem text_write_behind (page : Page) (n : ℕ) (cs : List Char) :
    text (write page n cs) n = text page n := by
  have h := text_write page n (Nat.zero_le cs.length)
  rwa [add_zero, List.take_zero, List.append_nil] at h

/-! ## Printing -/

/-- Sizes from here on are refused. -/
abbrev INT_MAX : ℕ := 2 ^ 31 - 1

/-- `snprintf(&page[off], size, ...)`, for text that converts to `cs`: the page, and the
length the text has whether it fits or not. -/
def snprintf (page : Page) (off size : ℕ) (cs : List Char) : Page × ℕ :=
  if size > INT_MAX then (page, 0)
  else if size = 0 then (page, cs.length)
  else (write page off (cs.take (size - 1) ++ ['\x00']), cs.length)

/-- `scnprintf(page, size, ...)`: the length of the text that was put down. -/
def scnprintf (page : Page) (size : ℕ) (cs : List Char) : Page × ℕ :=
  let (page, len) := snprintf page 0 size cs
  (page, if len < size then len else size - 1)

/-- `size - len` in an unsigned long. -/
def remaining (size len : ℕ) : ℕ := (((size : ℤ) - len) % 2 ^ 64).toNat

/-- `len += snprintf(&page[len], size - len, ...)`. -/
def append_printf (size : ℕ) (r : Page × ℕ) (cs : List Char) : Page × ℕ :=
  let (page, len) := snprintf r.1 r.2 (remaining size r.2) cs
  (page, r.2 + len)

theorem remaining_eq {size len : ℕ} (hsize : size ≤ INT_MAX) (hlen : len ≤ size) :
    remaining size len = size - len := by
  unfold INT_MAX at hsize
  unfold remaining
  rw [Int.emod_eq_of_lt (by omega) (by omega)]
  omega

theorem text_scnprintf {page : Page} {size : ℕ} {cs : List Char} (hsize : size ≤ INT_MAX)
    (h : cs.length < size) :
    text (scnprintf page size cs).1 (scnprintf page size cs).2 = cs := by
  unfold scnprintf snprintf
  rw [if_neg (by omega), if_neg (by omega)]
  simp only
  rw [if_pos h, List.take_of_length_le (by omega)]
  have htext := @text_write page 0 (cs ++ ['\x00']) cs.length (by simp)
  rwa [zero_add, List.take_left, show text page 0 = [] from rfl, List.nil_append] at htext

/-- Text that fits is put behind the text there is. -/
theorem text_append_printf {size : ℕ} {r : Page × ℕ} {cs : List Char} (hsize : size ≤ INT_MAX)
    (h : r.2 + cs.length < size) :
    (append_printf size r cs).2 = r.2 + cs.length ∧
      text (append_printf size r cs).1 (append_printf size r cs).2 = text r.1 r.2 ++ cs := by
  have hrest : remaining size r.2 = size - r.2 := remaining_eq hsize (by omega)
  unfold append_printf snprintf
  rw [hrest, if_neg (by omega), if_neg (by omega)]
  refine ⟨rfl, ?_⟩
  simp only
  rw [List.take_of_length_le (by omega), text_write r.1 r.2 (by simp), List.take_left]

/-- **Texts that fit together are put down one behind the other.** -/
theorem text_foldl_append_printf {α : Type*} {size : ℕ} (hsize : size ≤ INT_MAX)
    (f : α → List Char) (xs : List α) (r : Page × ℕ) (h : r.2 + (xs.flatMap f).length < size) :
    (xs.foldl (fun r x => append_printf size r (f x)) r).2 = r.2 + (xs.flatMap f).length ∧
      text (xs.foldl (fun r x => append_printf size r (f x)) r).1
        (xs.foldl (fun r x => append_printf size r (f x)) r).2 =
          text r.1 r.2 ++ xs.flatMap f := by
  induction xs generalizing r with
  | nil => exact ⟨rfl, (List.append_nil _).symm⟩
  | cons x xs ih =>
      rw [List.flatMap_cons, List.length_append] at h ⊢
      obtain ⟨hlen, htext⟩ := @text_append_printf size r (f x) hsize (by omega)
      obtain ⟨hlen', htext'⟩ := ih (append_printf size r (f x)) (by omega)
      rw [List.foldl_cons]
      refine ⟨by omega, ?_⟩
      rw [htext', htext, List.append_assoc]

end Printf
