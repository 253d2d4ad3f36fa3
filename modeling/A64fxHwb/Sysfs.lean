/-
The files under sysfs, `a64fx_hwb_cmg.c` and `hwinfo_show`.

A show function prints into the page the kernel hands it and returns how much it printed.
The size of a page is the kernel's, so it is an argument here. None of the functions
takes a lock. The words one of them reads can therefore be of different moments, and
`used_bw_bmap_show`, which reads a word that changes for each PE, takes the CMG as each
turn of its loop finds it. The rest of what is read in a loop never changes after the
load.

What `smp_call_function_any` brings back from another CPU is a value here; it is the
initial one when no CPU of the mask is online.

The other half of the file, which creates and destroys a CMG, is in `Main.lean`.
-/
import A64fxHwb.Kernel
import A64fxHwb.Text

set_option autoImplicit false

namespace A64fxHwb

open Printf

variable {hw : Machine}

/-- What a show function must not do: a store behind the page. -/
inductive ShowFault
  | buf_index (i : ℕ)
  deriving DecidableEq, Repr

/-- `buf[slen] = '\0'; return slen;`. -/
def show_end (PAGE_SIZE : ℕ) (r : Page × ℕ) : Except ShowFault (Page × ℕ) :=
  if r.2 < PAGE_SIZE then .ok (write r.1 r.2 ['\x00'], r.2) else .error (.buf_index r.2)

/-! ## The device -/

/-- `hwinfo_show`. -/
def hwinfo_show (PAGE_SIZE : ℕ) (dev : a64fx_hwb_device) (buf : Page) : Page × ℕ :=
  scnprintf buf PAGE_SIZE ([' '].intercalate [decimal dev.num_cmgs, decimal dev.num_bb_per_cmg,
    decimal dev.num_bw_per_cmg, decimal dev.max_pe_per_cmg] ++ ['\n'])

/-! ## A CMG -/

/-- `core_map_show`. -/
def core_map_show (PAGE_SIZE : ℕ) (cmg : a64fx_cmg_device) (buf : Page) :
    Except ShowFault (Page × ℕ) :=
  show_end PAGE_SIZE (cmg.slots.foldl (fun r i =>
    append_printf PAGE_SIZE r ((decimal (cmg.pe_map i).cpu_id ++
      ' ' :: decimal (cmg.pe_map i).ppe_id) ++ ['\n'])) (buf, 0))

/-- `used_bb_bmap_show`. -/
def used_bb_bmap_show (PAGE_SIZE : ℕ) (cmg : a64fx_cmg_device) (buf : Page) : Page × ℕ :=
  scnprintf buf PAGE_SIZE (hexadecimal 4 cmg.bb_active.toNat ++ ['\n'])

/-- The turns of a loop over a CMG that is `cmg i` in turn `i`. -/
def turns (cmg : Fin MAX_PE_PER_CMG → a64fx_cmg_device) : List (Fin MAX_PE_PER_CMG) :=
  (List.finRange MAX_PE_PER_CMG).takeWhile fun i => decide (i.val < (cmg i).num_pes)

/-- `used_bw_bmap_show`. -/
def used_bw_bmap_show (PAGE_SIZE : ℕ) (cmg : Fin MAX_PE_PER_CMG → a64fx_cmg_device) (buf : Page) :
    Except ShowFault (Page × ℕ) :=
  show_end PAGE_SIZE ((turns cmg).foldl (fun r i =>
    append_printf PAGE_SIZE r ((decimal ((cmg i).pe_map i).cpu_id ++
      ' ' :: hexadecimal 4 ((cmg i).pe_map i).bw_map.toNat) ++ ['\n'])) (buf, 0))

/-! ## A blade register -/

/-- What `smp_call_function_any` brings back in `info`. -/
def smp_call_function_any_info {α : Type*} (c : Call hw) (mask : cpumask_t)
    (func : ℕ → hwb_regs → α → α) (info : α) (s : Kernel) : α :=
  if mask &&& c.online = 0 then info else func (c.any (mask &&& c.online)) s.regs info

structure bb_show_info where
  blade : ℤ
  mask : BitVec 64
  bst : BitVec 64

/-- `_init_sync_bb_show_func`. -/
def _init_sync_bb_show_func (hw : Machine) (cpu : ℕ) (regs : hwb_regs) (bbinfo : bb_show_info) :
    bb_show_info :=
  let (mask, bst) := read_init_sync_bb hw cpu bbinfo.blade regs
  { bbinfo with mask := mask, bst := bst }

/-- `init_sync_bb_show`. -/
def init_sync_bb_show (PAGE_SIZE : ℕ) (c : Call hw) (cmg : Fin MAX_NUM_CMG) (blade : ℤ)
    (s : Kernel) (buf : Page) : Page × ℕ :=
  let info := smp_call_function_any_info c (s.dev.cmgs cmg).cmgmask (_init_sync_bb_show_func hw)
    { blade := blade, mask := 0, bst := 0 } s
  scnprintf buf PAGE_SIZE (hexadecimal 4 info.mask.toNat ++ ['\n'] ++
    (hexadecimal 4 info.bst.toNat ++ ['\n']))

section Blades

variable (PAGE_SIZE : ℕ) (c : Call hw) (cmg : Fin MAX_NUM_CMG)

/-- `init_sync_bb0_show`, -/
def init_sync_bb0_show : Kernel → Page → Page × ℕ := init_sync_bb_show PAGE_SIZE c cmg 0
/-- `init_sync_bb1_show`, -/
def init_sync_bb1_show : Kernel → Page → Page × ℕ := init_sync_bb_show PAGE_SIZE c cmg 1
/-- `init_sync_bb2_show`, -/
def init_sync_bb2_show : Kernel → Page → Page × ℕ := init_sync_bb_show PAGE_SIZE c cmg 2
/-- `init_sync_bb3_show`, -/
def init_sync_bb3_show : Kernel → Page → Page × ℕ := init_sync_bb_show PAGE_SIZE c cmg 3
/-- `init_sync_bb4_show`, -/
def init_sync_bb4_show : Kernel → Page → Page × ℕ := init_sync_bb_show PAGE_SIZE c cmg 4
/-- and `init_sync_bb5_show`. -/
def init_sync_bb5_show : Kernel → Page → Page × ℕ := init_sync_bb_show PAGE_SIZE c cmg 5

/-- The attributes `init_sync_bb0` to `init_sync_bb5` of `cmg_attrs`. -/
def init_sync_bb_attrs : List (String × (Kernel → Page → Page × ℕ)) :=
  [("init_sync_bb0", init_sync_bb0_show PAGE_SIZE c cmg),
    ("init_sync_bb1", init_sync_bb1_show PAGE_SIZE c cmg),
    ("init_sync_bb2", init_sync_bb2_show PAGE_SIZE c cmg),
    ("init_sync_bb3", init_sync_bb3_show PAGE_SIZE c cmg),
    ("init_sync_bb4", init_sync_bb4_show PAGE_SIZE c cmg),
    ("init_sync_bb5", init_sync_bb5_show PAGE_SIZE c cmg)]

end Blades

/-! ## Files that read back -/

section Reading

variable {PAGE_SIZE : ℕ}

/-- Lines that have room are what the page reads. -/
theorem show_end_ok {α : Type*} (f : α → List Char) (xs : List α) (buf : Page)
    (hint : PAGE_SIZE ≤ INT_MAX) (h : (xs.flatMap f).length < PAGE_SIZE) :
    ∃ r, show_end PAGE_SIZE (xs.foldl (fun r x => append_printf PAGE_SIZE r (f x)) (buf, 0)) =
      .ok r ∧ text r.1 r.2 = xs.flatMap f := by
  obtain ⟨hlen, htext⟩ := text_foldl_append_printf hint f xs (buf, 0) (by rwa [Nat.zero_add])
  rw [Nat.zero_add] at hlen
  unfold show_end
  rw [if_pos (by omega)]
  refine ⟨_, rfl, ?_⟩
  rw [text_write_behind, htext]
  rfl

/-- A table with a line for each of at most 13 PEs, of two words that are short enough. -/
theorem table_shown {α β : Type*} {read : List Char → Option α} {read' : List Char → Option β}
    {u v : Fin MAX_PE_PER_CMG → List Char} {a : Fin MAX_PE_PER_CMG → α}
    {b : Fin MAX_PE_PER_CMG → β} {js : List (Fin MAX_PE_PER_CMG)} (hpage : 4096 ≤ PAGE_SIZE)
    (hint : PAGE_SIZE ≤ INT_MAX) (hjs : js.length ≤ MAX_PE_PER_CMG)
    (hu : ∀ j, read (u j) = some (a j)) (hv : ∀ j, read' (v j) = some (b j))
    (hword : ∀ j, ' ' ∉ u j ∧ '\n' ∉ u j) (hword' : ∀ j, ' ' ∉ v j ∧ '\n' ∉ v j)
    (hlen : ∀ j ∈ js, (u j).length + (v j).length ≤ 300) (buf : Page) :
    ∃ r, show_end PAGE_SIZE (js.foldl (fun r j =>
        append_printf PAGE_SIZE r ((u j ++ ' ' :: v j) ++ ['\n'])) (buf, 0)) = .ok r ∧
      rows read read' (text r.1 r.2) = some (js.map fun j => (a j, b j)) := by
  have hline : ∀ j ∈ js, ((u j ++ ' ' :: v j) ++ ['\n']).length ≤ 302 := by
    intro j hj
    have hj' := hlen j hj
    simp only [List.length_append, List.length_cons, List.length_nil]
    omega
  have hroom := length_flatMap_le hline
  have hjs13 : js.length ≤ 13 := hjs
  obtain ⟨r, hr, htext⟩ := show_end_ok (fun j => (u j ++ ' ' :: v j) ++ ['\n']) js buf hint
    (by omega)
  refine ⟨r, hr, ?_⟩
  rw [htext]
  exact rows_flatMap hu hv hword hword' js

end Reading

end A64fxHwb
