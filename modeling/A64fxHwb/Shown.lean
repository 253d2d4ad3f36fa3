/-
What the files under sysfs say is true.

The files are text, and the words behind them are bitmaps and registers. Read back with
the readers of `Text.lean`, `core_map` is the CPUs of the CMG in the order of their
places (`core_map_shows_cores`), `used_bb_bmap` and `used_bw_bmap` are the blades and
windows that somebody has (`usage_maps_show_holdings`), and the file of a blade that
somebody has names the places of its CPUs (`blade_files_show_cpus`). Whatever a file is
read from is some state the driver was in, for `used_bw_bmap` one to each line.
-/
import A64fxHwb.Sysfs
import A64fxHwb.Windows
import A64fxHwb.Blades
import A64fxHwb.Commute
import Mathlib.Tactic.IntervalCases

set_option autoImplicit false

namespace A64fxHwb

open BitWord Printf Runs

variable {hw : Machine} {l : Load hw} {R : hwb_regs → Prop} {c : Call hw} {s : Kernel}
  {d : a64fx_hwb_device} {i : Fin MAX_NUM_CMG} {PAGE_SIZE : ℕ}

/-! ## The turns of a loop -/

theorem finRange_below (n : ℕ) :
    ((List.finRange MAX_PE_PER_CMG).takeWhile fun i => decide (i.val < n)) =
        (List.finRange MAX_PE_PER_CMG).filter (fun i => decide (i.val < n)) ∧
      ((List.finRange MAX_PE_PER_CMG).filter fun i => decide (i.val < n)).map Fin.val =
        List.range (min n MAX_PE_PER_CMG) := by
  have hfew : ∀ m : Fin 14,
      ((List.finRange MAX_PE_PER_CMG).takeWhile fun i => decide (i.val < m.val)) =
          (List.finRange MAX_PE_PER_CMG).filter (fun i => decide (i.val < m.val)) ∧
        ((List.finRange MAX_PE_PER_CMG).filter fun i => decide (i.val < m.val)).map Fin.val =
          List.range (min m.val MAX_PE_PER_CMG) := by decide
  by_cases hn : n < 14
  · exact hfew ⟨n, hn⟩
  · -- all slots are below `n`, as they are below 13
    have hsame : (fun i : Fin MAX_PE_PER_CMG => decide (i.val < n)) =
        fun i => decide (i.val < 13) := by
      funext i
      have hi : i.val < 13 := i.isLt
      rw [decide_eq_decide]
      omega
    have hmin : min n MAX_PE_PER_CMG = min 13 MAX_PE_PER_CMG := by
      change min n 13 = 13
      omega
    rw [hsame, hmin]
    exact hfew 13

/-- The slots are visited in order. -/
theorem slots_val (cmg : a64fx_cmg_device) :
    cmg.slots.map Fin.val = List.range (min cmg.num_pes MAX_PE_PER_CMG) :=
  (finRange_below cmg.num_pes).2

theorem turns_eq {cmgs : Fin MAX_PE_PER_CMG → a64fx_cmg_device} {cmg : a64fx_cmg_device}
    (h : ∀ j, (cmgs j).num_pes = cmg.num_pes) : turns cmgs = cmg.slots := by
  unfold turns
  simp only [h]
  exact (finRange_below cmg.num_pes).1

theorem length_slots (cmg : a64fx_cmg_device) : cmg.slots.length ≤ MAX_PE_PER_CMG := by
  have h := congrArg List.length (slots_val cmg)
  rw [List.length_map, List.length_range] at h
  omega

/-! ## The CPU column -/

/-- The slots of a CMG and the CPUs of the table on it. -/
theorem mem_slots_iff (ht : Table l d) (j : Fin MAX_PE_PER_CMG) (k : ℕ) :
    (j ∈ (d.cmgs i).slots ∧ ((d.cmgs i).pe_map j).cpu_id = k) ↔
      l.online.getLsbD k = true ∧ hw.cmg k = i ∧ hw.slot k = j := by
  rw [a64fx_cmg_device.mem_slots]
  constructor
  · rintro ⟨hj, hk⟩
    obtain ⟨hon, hc, hs⟩ := ht.slot_of_cpu_id hj hk
    exact ⟨hon, hc, hs.symm⟩
  · rintro ⟨hk, rfl, rfl⟩
    exact ⟨ht.slot_lt hk, (ht.entry hk).1⟩

/-- A CPU number has at most two digits. -/
theorem length_cpu_id (ht : Table l d) {j : Fin MAX_PE_PER_CMG} (hj : j ∈ (d.cmgs i).slots) :
    (decimal ((d.cmgs i).pe_map j).cpu_id).length ≤ 3 := by
  obtain ⟨k, hk, -, -, hcpu, -⟩ := ht.filled i j ((d.cmgs i).mem_slots j |>.mp hj)
  have hlt : k < 64 := BitVec.lt_of_getLsbD hk
  rw [hcpu]
  exact length_decimal (by decide) (by omega)

/-- A word has no blank and no newline in it. -/
theorem word_decimal (x : ℤ) : ' ' ∉ decimal x ∧ '\n' ∉ decimal x :=
  ⟨notMem_decimal (by decide) (by decide) x, notMem_decimal (by decide) (by decide) x⟩

theorem word_hexadecimal (x : ℕ) : ' ' ∉ hexadecimal 4 x ∧ '\n' ∉ hexadecimal 4 x :=
  ⟨notMem_hexadecimal (by decide) 4 x, notMem_hexadecimal (by decide) 4 x⟩

/-! ## The cores -/

theorem core_map_rows (ht : Table l d) (hpage : 4096 ≤ PAGE_SIZE) (hint : PAGE_SIZE ≤ INT_MAX)
    (buf : Page) : ∃ r, core_map_show PAGE_SIZE (d.cmgs i) buf = .ok r ∧
      rows integer integer (text r.1 r.2) = some ((d.cmgs i).slots.map fun j =>
        (((d.cmgs i).pe_map j).cpu_id, ((d.cmgs i).pe_map j).ppe_id)) := by
  refine table_shown hpage hint (length_slots _) (fun j => integer_decimal _)
    (fun j => integer_decimal _) (fun j => word_decimal _) (fun j => word_decimal _) ?_ buf
  intro j hj
  have hcpu := length_cpu_id ht hj
  obtain ⟨-, -, -, -, -, -, hppe⟩ := ht.filled i j (((d.cmgs i).mem_slots j).mp hj)
  have hj13 : j.val < 13 := j.isLt
  have hlen : (decimal ((d.cmgs i).pe_map j).ppe_id).length ≤ 3 := by
    rw [hppe]
    exact length_decimal (by decide) (by omega)
  omega

/-- The limits of the device stay as the load has set them. -/
theorem limits_of_run (h : (driver l R).Reachable s) :
    s.dev.num_bw_per_cmg = (loaded_device l).num_bw_per_cmg ∧
      s.dev.max_pe_per_cmg = (loaded_device l).max_pe_per_cmg := by
  refine run_invariant (P := fun s => s.dev.num_bw_per_cmg = (loaded_device l).num_bw_per_cmg ∧
    s.dev.max_pe_per_cmg = (loaded_device l).max_pe_per_cmg) ?_ ?_ h
  · intro regs s _ hload
    rw [hload.spec.1]
    exact ⟨rfl, rfl⟩
  · intro s e _ t t' _ hP hm
    cases hm with
    | _ => exact hP

/-- A running maximum is a bound that is reached. -/
theorem foldl_max {α : Type*} (f : α → ℕ) (xs : List α) (b : ℕ) :
    b ≤ xs.foldl (fun n x => max n (f x)) b ∧
      (∀ x ∈ xs, f x ≤ xs.foldl (fun n x => max n (f x)) b) ∧
      (xs.foldl (fun n x => max n (f x)) b = b ∨
        ∃ x ∈ xs, f x = xs.foldl (fun n x => max n (f x)) b) := by
  induction xs generalizing b with
  | nil => exact ⟨le_refl b, fun x hx => absurd hx List.not_mem_nil, Or.inl rfl⟩
  | cons x xs ih =>
      obtain ⟨hle, hall, hreached⟩ := ih (max b (f x))
      rw [List.foldl_cons]
      refine ⟨by omega, fun y hy => ?_, ?_⟩
      · rcases List.mem_cons.mp hy with rfl | hy
        · omega
        · exact hall y hy
      · rcases hreached with heq | ⟨y, hy, heq⟩
        · rcases Nat.le_total b (f x) with hb | hb
          · exact Or.inr ⟨x, List.mem_cons_self, by omega⟩
          · exact Or.inl (by omega)
        · exact Or.inr ⟨y, List.mem_cons_of_mem _ hy, heq⟩

/-- `max_pe_per_cmg` is the largest number of PEs of a CMG. -/
theorem max_pe_loaded (l : Load hw) :
    (∀ i, ((loaded_device l).cmgs i).num_pes ≤ (loaded_device l).max_pe_per_cmg) ∧
      ∃ i, ((loaded_device l).cmgs i).num_pes = (loaded_device l).max_pe_per_cmg := by
  obtain ⟨-, hall, hreached⟩ := foldl_max (fun i => ((loaded_device l).cmgs i).num_pes)
    (List.finRange MAX_NUM_CMG) 0
  have hle : ∀ i, ((loaded_device l).cmgs i).num_pes ≤ (loaded_device l).max_pe_per_cmg :=
    fun i => hall i (List.mem_finRange i)
  refine ⟨hle, ?_⟩
  rcases hreached with heq | ⟨i, -, heq⟩
  · -- no CMG has a PE
    have hzero : (loaded_device l).max_pe_per_cmg = 0 := heq
    have h0 := hle 0
    exact ⟨0, by omega⟩
  · exact ⟨i, heq⟩

theorem num_pes_loaded (l : Load hw) (i : Fin MAX_NUM_CMG) :
    ((loaded_device l).cmgs i).num_pes ≤ MAX_PE_PER_CMG := by
  have hle := List.countP_le_length (l := List.finRange MAX_PE_PER_CMG)
    (p := fun j => decide ((((filled l).cmgs i).pe_map j).cpu_id ≥ 0))
  rwa [List.length_finRange] at hle

theorem length_slots_loaded (hsame : SameTable (loaded_device l) d) (i : Fin MAX_NUM_CMG) :
    (d.cmgs i).slots.length = ((loaded_device l).cmgs i).num_pes := by
  have hval := congrArg List.length (slots_val (d.cmgs i))
  rw [List.length_map, List.length_range, (hsame.cmg i).2.1,
    Nat.min_eq_left (num_pes_loaded l i)] at hval
  exact hval

/-- `hwinfo`, for numbers of one or two digits. -/
theorem hwinfo_reads (hpage : 4096 ≤ PAGE_SIZE) (hint : PAGE_SIZE ≤ INT_MAX) (buf : Page)
    (hcmgs : d.num_cmgs < 100) (hbb : d.num_bb_per_cmg < 100) (hbw : d.num_bw_per_cmg < 100)
    (hpe : d.max_pe_per_cmg < 100) :
    ∃ line, lines (text (hwinfo_show PAGE_SIZE d buf).1 (hwinfo_show PAGE_SIZE d buf).2) = [line] ∧
      (words line).mapM integer = some [(d.num_cmgs : ℤ), d.num_bb_per_cmg, d.num_bw_per_cmg,
        d.max_pe_per_cmg] := by
  have hshort : ∀ n : ℕ, n < 100 → (decimal n).length ≤ 3 := by
    intro n hn
    exact length_decimal (by decide) (by omega)
  have hline : '\n' ∉ [' '].intercalate ([(d.num_cmgs : ℤ), d.num_bb_per_cmg, d.num_bw_per_cmg,
      d.max_pe_per_cmg].map decimal) := by
    simp only [List.map_cons, List.map_nil, List.intercalate, List.intersperse, List.flatten_cons,
      List.flatten_nil, List.mem_append, List.mem_singleton, not_or]
    refine ⟨(word_decimal _).2, by decide, (word_decimal _).2, by decide, (word_decimal _).2,
      by decide, (word_decimal _).2, List.not_mem_nil⟩
  have hroom : ([' '].intercalate ([(d.num_cmgs : ℤ), d.num_bb_per_cmg, d.num_bw_per_cmg,
      d.max_pe_per_cmg].map decimal) ++ ['\n']).length < PAGE_SIZE := by
    have h1 := hshort _ hcmgs
    have h2 := hshort _ hbb
    have h3 := hshort _ hbw
    have h4 := hshort _ hpe
    simp only [List.map_cons, List.map_nil, List.intercalate, List.intersperse, List.flatten_cons,
      List.flatten_nil, List.length_append, List.length_cons, List.length_nil]
    omega
  refine ⟨_, ?_, integers_intercalate (List.cons_ne_nil _ _)⟩
  have hshow : hwinfo_show PAGE_SIZE d buf = scnprintf buf PAGE_SIZE ([' '].intercalate
      ([(d.num_cmgs : ℤ), d.num_bb_per_cmg, d.num_bw_per_cmg, d.max_pe_per_cmg].map decimal) ++
        ['\n']) := rfl
  rw [hshow, text_scnprintf hint hroom]
  exact lines_singleton hline

/-- **`core_map` and `hwinfo` describe the machine.** In every state of every run the file
`core_map` of a CMG has a line for each place from 0 up, with the CPU that sits there by
its own `PEINFO`, and no CPU of the load is missing. The numbers in `hwinfo` are the ones
of the header, and the last is the number of lines of the longest `core_map`. -/
theorem core_map_shows_cores (h : (driver l R).Reachable s) (hpage : 4096 ≤ PAGE_SIZE)
    (hint : PAGE_SIZE ≤ INT_MAX) (buf : Page) :
    ∃ cores : Fin MAX_NUM_CMG → List (ℤ × ℤ),
      (∀ i, ∃ r, core_map_show PAGE_SIZE (s.dev.cmgs i) buf = .ok r ∧
        rows integer integer (text r.1 r.2) = some (cores i)) ∧
      (∀ i, (cores i).map Prod.snd = (List.range (cores i).length).map fun p : ℕ => (p : ℤ)) ∧
      (∀ i x, x ∈ cores i ↔ ∃ k : ℕ, l.online.getLsbD k = true ∧ hw.cmg k = i ∧
        x = ((k : ℤ), (hw.ppe k : ℤ))) ∧
      ∃ most : ℕ, (∀ i, (cores i).length ≤ most) ∧ (∃ i, (cores i).length = most) ∧
        ∃ line, lines (text (hwinfo_show PAGE_SIZE s.dev buf).1
            (hwinfo_show PAGE_SIZE s.dev buf).2) = [line] ∧
          (words line).mapM integer =
            some [(MAX_NUM_CMG : ℤ), MAX_BB_PER_CMG, MAX_BW_PER_CMG, most] := by
  obtain ⟨hi, -, hsame⟩ := settled_of_reachable h
  have ht := hi.table
  obtain ⟨hbw, hmost⟩ := limits_of_run h
  obtain ⟨hle, i₀, hreached⟩ := max_pe_loaded l
  have hlen : ∀ i, ((s.dev.cmgs i).slots.map fun j => (((s.dev.cmgs i).pe_map j).cpu_id,
      ((s.dev.cmgs i).pe_map j).ppe_id)).length = ((loaded_device l).cmgs i).num_pes := by
    intro i
    rw [List.length_map]
    exact length_slots_loaded hsame i
  refine ⟨fun i => (s.dev.cmgs i).slots.map fun j => (((s.dev.cmgs i).pe_map j).cpu_id,
    ((s.dev.cmgs i).pe_map j).ppe_id), fun i => core_map_rows ht hpage hint buf, fun i => ?_,
    fun i x => ?_, (loaded_device l).max_pe_per_cmg, fun i => ?_, ⟨i₀, ?_⟩, ?_⟩
  · -- the line of slot `j` has place `j`
    have hplace : ∀ j ∈ (s.dev.cmgs i).slots, ((s.dev.cmgs i).pe_map j).ppe_id = (j.val : ℤ) := by
      intro j hj
      obtain ⟨-, -, -, -, -, -, hppe⟩ := ht.filled i j (((s.dev.cmgs i).mem_slots j).mp hj)
      exact hppe
    have hval := slots_val (s.dev.cmgs i)
    have hnum := congrArg List.length hval
    rw [List.length_map, List.length_range] at hnum
    rw [List.length_map, hnum, ← hval, List.map_map, List.map_map]
    exact List.map_congr_left hplace
  · rw [List.mem_map]
    constructor
    · rintro ⟨j, hj, rfl⟩
      obtain ⟨k, hk, hc, hs, hcpu, -, hppe⟩ := ht.filled i j (((s.dev.cmgs i).mem_slots j).mp hj)
      exact ⟨k, hk, hc, by rw [hcpu, hppe, hs]⟩
    · rintro ⟨k, hk, rfl, rfl⟩
      obtain ⟨hj, hcpu⟩ := (mem_slots_iff ht (hw.slot k) k).mpr ⟨hk, rfl, rfl⟩
      exact ⟨hw.slot k, hj, Prod.ext hcpu (ht.entry hk).2.2⟩
  · rw [hlen]
    exact hle i
  · rw [hlen]
    exact hreached
  · have hfew := num_pes_loaded l i₀
    have hmost13 : (loaded_device l).max_pe_per_cmg ≤ 13 := hreached ▸ hfew
    have hreads := hwinfo_reads (d := s.dev) hpage hint buf (by rw [ht.num_cmgs]; decide)
      (by rw [ht.num_bb]; decide) (by rw [hbw]; exact (by decide : MAX_BW_PER_CMG < 100))
      (by rw [hmost]; omega)
    rw [ht.num_cmgs, ht.num_bb, hbw, hmost] at hreads
    exact hreads

/-- A page as the kernel hands it out. -/
def zeroed_page : Page := fun _ => '\x00'

/-- The line of CPU 3. -/
theorem core_map_shows_cores_quad : ∃ cores : Fin MAX_NUM_CMG → List (ℤ × ℤ),
    (∀ i, ∃ r, core_map_show 4096 ((after Quad.load []).dev.cmgs i) zeroed_page = .ok r ∧
      rows integer integer (text r.1 r.2) = some (cores i)) ∧ ((3 : ℤ), (3 : ℤ)) ∈ cores 0 := by
  have hreach : (driver Quad.load fun _ => True).Reachable (after Quad.load []) :=
    reachable_after trivial (by decide +kernel) (by decide)
  obtain ⟨cores, hshow, -, hmem, -⟩ :=
    core_map_shows_cores hreach (le_refl 4096) (by decide) zeroed_page
  exact ⟨cores, hshow, (hmem 0 (3, 3)).mpr ⟨3, by decide, by decide, by decide⟩⟩

/-! ## Blades and windows -/

theorem testBit_toNat (x : BitVec 64) (k : ℕ) : x.toNat.testBit k = x.getLsbD k :=
  BitVec.testBit_toNat x

/-- A word of 64 bits is 16 digits at most. -/
theorem length_word (x : BitVec 64) : (hexadecimal 4 x.toNat).length ≤ 16 :=
  length_hexadecimal (by decide) (by decide) x.isLt

theorem used_bb_bmap_reads (hpage : 4096 ≤ PAGE_SIZE) (hint : PAGE_SIZE ≤ INT_MAX)
    (cmg : a64fx_cmg_device) (buf : Page) :
    (lines (text (used_bb_bmap_show PAGE_SIZE cmg buf).1
      (used_bb_bmap_show PAGE_SIZE cmg buf).2)).mapM (natural 16) =
        some [cmg.bb_active.toNat] := by
  have hlen := length_word cmg.bb_active
  have hreads := numbers_flatMap 4 [cmg.bb_active.toNat]
  rw [List.flatMap_singleton] at hreads
  unfold used_bb_bmap_show
  rw [text_scnprintf hint]
  · exact hreads
  · rw [List.length_append, List.length_singleton]
    omega

/-- `used_bw_bmap`, each line of which is read from a device of its own. -/
theorem used_bw_bmap_rows {seen : Fin MAX_PE_PER_CMG → a64fx_hwb_device}
    (ht : ∀ j, Table l (seen j)) (hsame : ∀ j, SameTable (loaded_device l) (seen j))
    (hpage : 4096 ≤ PAGE_SIZE) (hint : PAGE_SIZE ≤ INT_MAX) (buf : Page) :
    ∃ r, used_bw_bmap_show PAGE_SIZE (fun j => (seen j).cmgs i) buf = .ok r ∧
      rows integer (natural 16) (text r.1 r.2) =
        some (((loaded_device l).cmgs i).slots.map fun j =>
          ((((seen j).cmgs i).pe_map j).cpu_id, (((seen j).cmgs i).pe_map j).bw_map.toNat)) := by
  have hturns : turns (fun j => (seen j).cmgs i) = ((loaded_device l).cmgs i).slots :=
    turns_eq fun j => ((hsame j).cmg i).2.1
  unfold used_bw_bmap_show
  rw [hturns]
  refine table_shown hpage hint (length_slots _) (fun j => integer_decimal _)
    (fun j => natural_hexadecimal 4 _) (fun j => word_decimal _) (fun j => word_hexadecimal _)
    ?_ buf
  intro j hj
  rw [← (hsame j).slots] at hj
  have hcpu := length_cpu_id (ht j) hj
  have hword := length_word (((seen j).cmgs i).pe_map j).bw_map
  dsimp only
  omega

/-- **The usage maps are the holdings.** In every state of every run the number in
`used_bb_bmap` has the bits of the blades that a group holds. When no CPU has been given a
second window of a blade, `used_bw_bmap` has one line for each CPU of the CMG, and its
number has the bits of the windows that an allocation records for the CPU, in the state the
line was read from, whatever happened between two lines. -/
theorem usage_maps_show_holdings {seen : Fin MAX_PE_PER_CMG → Kernel}
    (h : (driver l R).Reachable s)
    (hseen : ∀ j, (driver l R).ReachableVia (fun s e => ¬Reassigns e s) (seen j))
    (hpage : 4096 ≤ PAGE_SIZE) (hint : PAGE_SIZE ≤ INT_MAX) (i : Fin MAX_NUM_CMG) (buf : Page) :
    (∃ mask, (lines (text (used_bb_bmap_show PAGE_SIZE (s.dev.cmgs i) buf).1
        (used_bb_bmap_show PAGE_SIZE (s.dev.cmgs i) buf).2)).mapM (natural 16) = some [mask] ∧
      ∀ b, mask.testBit b = true ↔ ∃ g a, Held s.dev g a ∧ a.place = (i.val, b)) ∧
    ∃ r windows, used_bw_bmap_show PAGE_SIZE (fun j => (seen j).dev.cmgs i) buf = .ok r ∧
      rows integer (natural 16) (text r.1 r.2) = some windows ∧
      (windows.map Prod.fst).Nodup ∧
      ∀ x, x ∈ windows ↔ ∃ k : ℕ, l.online.getLsbD k = true ∧ hw.cmg k = i ∧ x.1 = k ∧
        ∀ w, x.2.testBit w = true ↔
          ∃ g a, Held (seen (hw.slot k)).dev g a ∧ Records l a k w := by
  obtain ⟨hi, -, -⟩ := settled_of_reachable h
  have hset := fun j => settled_of_reachable (hseen j).reachable
  constructor
  · refine ⟨_, used_bb_bmap_reads hpage hint (s.dev.cmgs i) buf, fun b => ?_⟩
    rw [testBit_toNat]
    constructor
    · intro hbit
      exact hi.blades_covered (i.val, b) ⟨i, rfl, hbit⟩
    · rintro ⟨g, a, ha, hp⟩
      have hbit := hi.bb_of_held ha (congrArg Prod.fst hp)
      rwa [show a.blade = b from congrArg Prod.snd hp] at hbit
  · obtain ⟨r, hr, hrows⟩ := used_bw_bmap_rows (fun j => (hset j).inv.table)
      (fun j => (hset j).table) hpage hint (i := i) buf
    refine ⟨r, _, hr, hrows, ?_, fun x => ?_⟩
    · -- two slots never have the same CPU
      rw [List.map_map]
      refine List.Nodup.map_on ?_ ((List.nodup_finRange _).filter _)
      intro j hj j' hj' hcpu
      rw [← (hset j).table.slots] at hj
      rw [← (hset j').table.slots] at hj'
      obtain ⟨k, -, -, -, hk, -⟩ :=
        (hset j).inv.table.filled i j (((_ : a64fx_cmg_device).mem_slots j).mp hj)
      have hk' : (((seen j').dev.cmgs i).pe_map j').cpu_id = k := hcpu.symm.trans hk
      rw [← ((mem_slots_iff (hset j).inv.table j k).mp ⟨hj, hk⟩).2.2,
        ((mem_slots_iff (hset j').inv.table j' k).mp ⟨hj', hk'⟩).2.2]
    -- the bits of a CPU's word are the windows recorded for it
    have hbits : ∀ {k : ℕ}, l.online.getLsbD k = true → ∀ w,
        ((((seen (hw.slot k)).dev.cmgs (hw.cmg k)).pe_map (hw.slot k)).bw_map).getLsbD w = true ↔
          ∃ g a, Held (seen (hw.slot k)).dev g a ∧ Records l a k w := by
      intro k hk w
      constructor
      · intro hbit
        obtain ⟨p, g, a, ha, -, hr⟩ :=
          (windowsAccounted_of_run (hseen (hw.slot k))).covered (k, w) ⟨hk, hbit⟩
        exact ⟨g, a, ha, hr⟩
      · rintro ⟨g, a, ha, hr⟩
        exact (hset (hw.slot k)).inv.bw_of_records ha hr
    rw [List.mem_map]
    constructor
    · rintro ⟨j, hj, rfl⟩
      rw [← (hset j).table.slots, a64fx_cmg_device.mem_slots] at hj
      obtain ⟨k, hk, rfl, -, hcpu, -⟩ := (hset j).inv.table.filled i j hj
      obtain ⟨-, -, rfl⟩ := (hset j).inv.table.slot_of_cpu_id hj hcpu
      refine ⟨k, hk, rfl, hcpu, fun w => ?_⟩
      rw [testBit_toNat]
      exact hbits hk w
    · rintro ⟨k, hk, rfl, hcpu', hmask⟩
      obtain ⟨hj, hcpu⟩ :=
        (mem_slots_iff (hset (hw.slot k)).inv.table (hw.slot k) k).mpr ⟨hk, rfl, rfl⟩
      rw [(hset (hw.slot k)).table.slots] at hj
      refine ⟨hw.slot k, hj, Prod.ext (hcpu.trans hcpu'.symm) (Nat.eq_of_testBit_eq fun w => ?_)⟩
      rw [testBit_toNat, Bool.eq_iff_iff]
      exact (hbits hk w).trans (hmask w).symm

/-- Two CPUs take a window each after the line of the first has been read. -/
def Quad.seen (j : Fin MAX_PE_PER_CMG) : Kernel :=
  if j = 0 then after Quad.load [Quad.alloc Quad.first 0 0x3]
  else after Quad.load [Quad.alloc Quad.first 0 0x3, Quad.assign Quad.first 0 0 (-1),
    Quad.assign Quad.second 1 0 (-1)]

theorem usage_maps_show_holdings_quad : ∃ r windows,
    used_bw_bmap_show 4096 (fun j => (Quad.seen j).dev.cmgs 0) zeroed_page = .ok r ∧
    rows integer (natural 16) (text r.1 r.2) = some windows ∧ (windows.map Prod.fst).Nodup := by
  have hafter : ∀ es : List (Event Quad.machine), succeeds Quad.load es = true →
      (∀ e ∈ es, e.plain = true ∧ e.cmg_in_range = true) →
      (driver Quad.load fun _ => True).ReachableVia (fun s e => ¬Reassigns e s)
        (after Quad.load es) := by
    intro es hok htest
    refine reachableVia_after trivial hok (fun e he => (htest e he).2) fun e he s => ?_
    exact not_makes_of_plain (htest e he).1 s .reassign (by decide)
  have hseen : ∀ j, (driver Quad.load fun _ => True).ReachableVia
      (fun s e => ¬Reassigns e s) (Quad.seen j) := by
    intro j
    unfold Quad.seen
    split_ifs
    · exact hafter _ (by decide +kernel) (by decide)
    · exact hafter _ (by decide +kernel) (by decide)
  obtain ⟨-, r, windows, hshow, hrows, hnodup, -⟩ := usage_maps_show_holdings
    (hseen 0).reachable hseen (le_refl 4096) (by decide) 0 zeroed_page
  exact ⟨r, windows, hshow, hrows, hnodup⟩

/-! ## The blade registers -/

/-- The registers of the blades that are held select their CPUs. -/
theorem selects_of_run (h : (driver l R).ReachableVia (fun _ e => e.OnlineLoaded l) s) {g : ℕ}
    {a : a64fx_task_allocation} (ha : Held s.dev g a) : Selects hw s.regs a := by
  have hboth := run_invariant (P := fun s =>
      (∀ g a, Held s.dev g a → ∀ k, a.cpumask.getLsbD k = true →
        l.online.getLsbD k = true ∧ (hw.cmg k).val = a.cmg) ∧
      ∀ g a, Held s.dev g a → Selects hw s.regs a) ?_ ?_ h
  · exact hboth.2 g a ha
  · intro regs s _ hload
    rw [hload.spec.1]
    exact ⟨fun g a ha => absurd ha (not_held_loaded hload.packed g a),
      fun g a ha => absurd ha (not_held_loaded hload.packed g a)⟩
  · intro s e hon t t' hi hP hm
    exact ⟨hm.cpus hi hon hP.1, hm.selects hi hon hP.1 hP.2⟩

theorem init_sync_bb_reads (hpage : 4096 ≤ PAGE_SIZE) (hint : PAGE_SIZE ≤ INT_MAX)
    (ht : Table l s.dev) {b : ℕ} (hb : b < MAX_BB_PER_CMG)
    (hon : ∃ k, l.online.getLsbD k = true ∧ hw.cmg k = i ∧ c.online.getLsbD k = true)
    (buf : Page) :
    (lines (text (init_sync_bb_show PAGE_SIZE c i b s buf).1
      (init_sync_bb_show PAGE_SIZE c i b s buf).2)).mapM (natural 16) =
        some [(bst_mask s.regs i b).toNat,
          (s.regs.init_sync_bb i b &&& A64FX_HWB_INIT_BST_MASK).toNat] := by
  -- the function runs on a CPU of the CMG
  have hne : (s.dev.cmgs i).cmgmask &&& c.online ≠ 0 := by
    obtain ⟨k, hk, hc, hkon⟩ := hon
    intro h0
    have hbit := (eq_zero_iff _).mp h0 k
    rw [BitVec.getLsbD_and, (ht.cmgmask i k).mpr ⟨hk, hc⟩, hkon] at hbit
    exact Bool.noConfusion hbit
  have hcmg := any_cmg ht hne
  have hrange : 0 ≤ (b : ℤ) ∧ (b : ℤ) < MAX_BB_PER_CMG := by
    have hb6 : b < 6 := hb
    constructor
    · omega
    · change (b : ℤ) < (6 : ℕ)
      omega
  have hshow : init_sync_bb_show PAGE_SIZE c i b s buf = scnprintf buf PAGE_SIZE
      ([(bst_mask s.regs i b).toNat,
        (s.regs.init_sync_bb i b &&& A64FX_HWB_INIT_BST_MASK).toNat].flatMap fun x =>
          hexadecimal 4 x ++ ['\n']) := by
    unfold init_sync_bb_show smp_call_function_any_info _init_sync_bb_show_func read_init_sync_bb
    rw [if_neg hne]
    simp only [if_pos hrange, hcmg, Int.toNat_natCast, List.flatMap_cons, List.flatMap_nil,
      List.append_nil]
    rfl
  rw [hshow, text_scnprintf hint]
  · exact numbers_flatMap 4 _
  · have h1 := length_word (bst_mask s.regs i b)
    have h2 := length_word (s.regs.init_sync_bb i b &&& A64FX_HWB_INIT_BST_MASK)
    simp only [List.flatMap_cons, List.flatMap_nil, List.length_append, List.length_cons,
      List.length_nil]
    omega

/-- **The file of a held blade names its CPUs.** In every state of a run in which no CPU
comes online that was not at load, the mask in `init_sync_bb<b>` has the bits of the places
of the CPUs of the allocation that holds blade `b` of the CMG, whichever CPU of the CMG is
asked for its register. -/
theorem blade_files_show_cpus (h : (driver l R).ReachableVia (fun _ e => e.OnlineLoaded l) s)
    (hpage : 4096 ≤ PAGE_SIZE) (hint : PAGE_SIZE ≤ INT_MAX) {g : ℕ} {a : a64fx_task_allocation}
    (ha : Held s.dev g a) (hc : a.cmg = i.val)
    (hon : ∃ k, l.online.getLsbD k = true ∧ hw.cmg k = i ∧ c.online.getLsbD k = true)
    (buf : Page) :
    ∃ f, (init_sync_bb_attrs PAGE_SIZE c i)[a.blade]? =
        some ("init_sync_bb" ++ toString a.blade, f) ∧
      ∃ mask bst, (lines (text (f s buf).1 (f s buf).2)).mapM (natural 16) = some [mask, bst] ∧
        ∀ p, mask.testBit p = true ↔ ∃ k, a.cpumask.getLsbD k = true ∧ hw.ppe k = p := by
  obtain ⟨hi, -⟩ := reachable_inv h.reachable
  have hb := (hi.sane g a ha).blade_lt
  refine ⟨init_sync_bb_show PAGE_SIZE c i a.blade, ?_, _, _,
    init_sync_bb_reads hpage hint hi.table hb hon buf, fun p => ?_⟩
  · have hattrs : ∀ b : ℕ, b < 6 → (init_sync_bb_attrs PAGE_SIZE c i)[b]? =
        some ("init_sync_bb" ++ toString b, init_sync_bb_show PAGE_SIZE c i b) := by
      intro b hb
      interval_cases b
      all_goals rfl
    exact hattrs a.blade hb
  · rw [testBit_toNat]
    exact selects_of_run h ha i hc.symm p

/-- The file of blade 0, which CPUs 0 and 1 share. -/
theorem blade_files_show_cpus_quad : ∃ f,
    (init_sync_bb_attrs 4096 (Quad.call Quad.other 3) 0)[0]? = some ("init_sync_bb0", f) ∧
      ∃ mask bst, (lines (text (f (after Quad.load [Quad.alloc Quad.first 0 0x3]) zeroed_page).1
          (f (after Quad.load [Quad.alloc Quad.first 0 0x3]) zeroed_page).2)).mapM (natural 16) =
        some [mask, bst] ∧ mask.testBit 1 = true := by
  have hlive : ∃ a ∈ (after Quad.load [Quad.alloc Quad.first 0 0x3]).dev.allocs,
      a.cpumask = 0x3 ∧ a.cmg = 0 ∧ a.blade = 0 := by decide +kernel
  obtain ⟨a, ha, hcpus, hcmg, hblade⟩ := hlive
  obtain ⟨g, ha⟩ := mem_allocs.mp ha
  have hreach : (driver Quad.load fun _ => True).ReachableVia
      (fun _ e => e.OnlineLoaded Quad.load) (after Quad.load [Quad.alloc Quad.first 0 0x3]) := by
    refine reachableVia_after trivial (by decide +kernel) (by decide) fun e he s k hk => ?_
    rw [List.mem_singleton.mp he] at hk
    exact hk
  obtain ⟨f, hf, mask, bst, hread, hmask⟩ := blade_files_show_cpus (i := 0) hreach (le_refl 4096)
    (by decide) ha hcmg (c := Quad.call Quad.other 3) ⟨0, by decide, by decide, by decide⟩
    zeroed_page
  rw [hblade] at hf
  exact ⟨f, hf, mask, bst, hread, (hmask 1).mpr ⟨1, by rw [hcpus]; decide, by decide⟩⟩

end A64fxHwb
