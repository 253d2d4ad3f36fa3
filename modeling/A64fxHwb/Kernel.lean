/-
What the driver runs in: its own state and the registers, the locks, the calling
thread, and the services of the kernel it uses.

None of the kernel is under this repository, so its services follow their
documented behaviour, and whatever the kernel is free to choose is a field of
the `Call` an operation is made with: which CPU `smp_call_function_any` picks,
whether each `kmalloc` succeeds, which CPUs are online at the time. All
operations of the driver hold `dev_lock` while they touch its state, so one
operation is one step; `Concurrent` takes the operations of several threads
apart and shows that this is all they come to.

A call that C leaves undefined is a `Fault` here: a null or stale pointer that
is dereferenced, an index outside an array, a bit number outside its word, a
lock taken twice or released by somebody who does not hold it. There is one
exception. A `test_bit` outside the word is only a read of the memory behind it,
which the kernel survives, so `Call.beyond` decides: `some mem` lets it read
`mem`, `none` traps it.
-/
import A64fxHwb.Asm
import A64fxHwb.Keyed

set_option autoImplicit false

namespace A64fxHwb

open BitWord

/-! ## State -/

/-- `dev->dev_lock` and the `cmg_lock` of each CMG; `true` is held. -/
structure Locks where
  dev_lock : Bool
  cmg_lock : Fin MAX_NUM_CMG → Bool
  deriving DecidableEq

/-- No lock is held. -/
def Locks.free : Locks := ⟨false, fun _ => false⟩

/-- The state an operation works on. `preempt_count` counts the `get_cpu` calls
that no `put_cpu` has matched yet. -/
structure Kernel where
  dev : a64fx_hwb_device
  regs : hwb_regs
  locks : Locks
  preempt_count : ℤ

/-- What ends a call without a return. -/
inductive Fault
  | null_pemap
  | stale_pointer
  | cmgs_index (i : ℤ)
  | pe_map_index (i : ℤ)
  | window_index (i : ℤ)
  | win_blades_index (i : ℤ)
  | bit_number (nr : ℤ)
  | cpu_number (cpu : ℤ)
  | lock_held
  | unlock_not_held
  deriving DecidableEq, Repr

/-! ## The calling thread and the kernel's choices -/

/-- One call into the driver. -/
structure Call (hw : Machine) where
  /-- `get_current()`. -/
  task : task_struct
  /-- `current_task->cpus_mask`, the CPUs the thread may run on. -/
  cpus_mask : cpumask_t
  /-- `smp_processor_id()`, the CPU the call executes on. -/
  cpu : ℕ
  /-- The CPUs online during the call. -/
  online : cpumask_t
  /-- The CPU `smp_call_function_any` picks out of the eligible ones. -/
  any : cpumask_t → ℕ
  /-- Does the `kmalloc` in `new_taskmap` succeed? -/
  kmalloc_taskmap : Bool
  /-- Does the `kmalloc` in `new_allocation` succeed? -/
  kmalloc_alloc : Bool
  /-- What a `test_bit` outside its word reads, if it is not trapped. The only one asks for a
  window of `bw_map`, and the words behind it are `win_blades`, which hold -1 throughout. -/
  beyond : Option (ℤ → Bool)
  cpu_online : online.getLsbD cpu = true
  online_present : ∀ k, online.getLsbD k = true → hw.present.getLsbD k = true
  any_mem : ∀ m : cpumask_t, m ≠ 0 → m.getLsbD (any m) = true

variable {hw : Machine}

/-! ## Locks and preemption -/

/-- `spin_lock(&dev->dev_lock)`. -/
def spin_lock_dev (s : Kernel) : Except Fault Kernel :=
  if s.locks.dev_lock then .error .lock_held
  else .ok { s with locks := { s.locks with dev_lock := true } }

/-- `spin_unlock(&dev->dev_lock)`. -/
def spin_unlock_dev (s : Kernel) : Except Fault Kernel :=
  if s.locks.dev_lock then .ok { s with locks := { s.locks with dev_lock := false } }
  else .error .unlock_not_held

/-- `spin_lock(&cmgdev->cmg_lock)`. -/
def spin_lock_cmg (cmg : Fin MAX_NUM_CMG) (s : Kernel) : Except Fault Kernel :=
  if s.locks.cmg_lock cmg then .error .lock_held
  else .ok { s with locks :=
    { s.locks with cmg_lock := Function.update s.locks.cmg_lock cmg true } }

/-- `spin_unlock(&cmgdev->cmg_lock)`. -/
def spin_unlock_cmg (cmg : Fin MAX_NUM_CMG) (s : Kernel) : Except Fault Kernel :=
  if s.locks.cmg_lock cmg then .ok { s with locks :=
    { s.locks with cmg_lock := Function.update s.locks.cmg_lock cmg false } }
  else .error .unlock_not_held

/-- `get_cpu()`; the CPU it returns is `Call.cpu`. -/
def get_cpu (s : Kernel) : Kernel := { s with preempt_count := s.preempt_count + 1 }

/-- `put_cpu()`. -/
def put_cpu (s : Kernel) : Kernel := { s with preempt_count := s.preempt_count - 1 }

/-! ## Running a function on other CPUs -/

/-- `smp_call_function_single`: nothing runs when the CPU is not online. -/
def smp_call_function_single (c : Call hw) (cpu : ℤ) (func : ℕ → hwb_regs → hwb_regs)
    (s : Kernel) : Kernel :=
  { s with regs :=
    if 0 ≤ cpu ∧ c.online.getLsbD cpu.toNat = true then func cpu.toNat s.regs else s.regs }

/-- `smp_call_function_any`: nothing runs when no CPU of the mask is online. -/
def smp_call_function_any (c : Call hw) (mask : cpumask_t) (func : ℕ → hwb_regs → hwb_regs)
    (s : Kernel) : Kernel :=
  { s with regs :=
    if mask &&& c.online = 0 then s.regs else func (c.any (mask &&& c.online)) s.regs }

/-- `on_each_cpu` with `wait` = 0: `late` are the CPUs that have not run the function yet
when it returns. -/
def on_each_cpu (c : Call hw) (func : ℕ → hwb_regs → hwb_regs) (late : cpumask_t)
    (s : Kernel) : Kernel :=
  { s with regs :=
    (for_each_cpu (c.online &&& ~~~late)).foldl (fun regs cpu => func cpu regs) s.regs }

/-- Where `on_each_cpu` has run when it returns. -/
theorem mem_for_each_cpu_on_time {online late : cpumask_t} {k : ℕ} :
    k ∈ for_each_cpu (online &&& ~~~late) ↔
      online.getLsbD k = true ∧ late.getLsbD k = false := by
  rw [mem_bits, BitVec.getLsbD_and, BitVec.getLsbD_not, Bool.and_eq_true]
  refine and_congr_right fun hk => ?_
  rw [decide_eq_true (BitVec.lt_of_getLsbD hk), Bool.true_and, Bool.not_eq_true']

/-! ## Bits of a word -/

/-- `test_bit`. -/
def test_bit (c : Call hw) (nr : ℤ) (word : BitVec 64) : Except Fault Bool :=
  if 0 ≤ nr ∧ nr < 64 then .ok (word.getLsbD nr.toNat)
  else
    -- the kernel does not check the number: this reads a neighbouring word
    match c.beyond with
    | some mem => .ok (mem nr)
    | none => .error (.bit_number nr)

/-- `set_bit`. -/
def set_bit (nr : ℤ) (word : BitVec 64) : Except Fault (BitVec 64) :=
  if 0 ≤ nr ∧ nr < 64 then .ok (setBit word nr.toNat) else .error (.bit_number nr)

/-- `clear_bit`. -/
def clear_bit (nr : ℤ) (word : BitVec 64) : Except Fault (BitVec 64) :=
  if 0 ≤ nr ∧ nr < 64 then .ok (clearBit word nr.toNat) else .error (.bit_number nr)

/-! ## Pointers into the tables and lists

A `struct a64fx_cmg_device *` is its index into `dev->cmgs`, a
`struct a64fx_core_mapping *` its index into the CMG's `pe_map`. The driver gets
at a mapping only by its thread group and at an allocation only by its CMG and
blade, so these are what a pointer to one is: a write through the pointer
rewrites the first entry the search for them finds, `list_del` unlinks it. -/

/-- `&dev->cmgs[i]`. -/
def cmgs_ptr (i : ℤ) : Except Fault (Fin MAX_NUM_CMG) :=
  if h : 0 ≤ i ∧ i < MAX_NUM_CMG then .ok ⟨i.toNat, by omega⟩ else .error (.cmgs_index i)

/-- The index of `cmg->pe_map[i]`. -/
def pe_map_ptr (i : ℤ) : Except Fault (Fin MAX_PE_PER_CMG) :=
  if h : 0 ≤ i ∧ i < MAX_PE_PER_CMG then .ok ⟨i.toNat, by omega⟩ else .error (.pe_map_index i)

/-- A core-mapping pointer that is about to be dereferenced. -/
def pemap_deref (pe : Option (Fin MAX_PE_PER_CMG)) : Except Fault (Fin MAX_PE_PER_CMG) :=
  match pe with
  | some i => .ok i
  | none => .error .null_pemap

/-- The index of `alloc->window[i]`. -/
def window_ptr (i : ℤ) : Except Fault (Fin MAX_PE_PER_CMG) :=
  if h : 0 ≤ i ∧ i < MAX_PE_PER_CMG then .ok ⟨i.toNat, by omega⟩ else .error (.window_index i)

/-- The index of `pe->win_blades[i]`. -/
def win_blades_ptr (i : ℤ) : Except Fault (Fin MAX_BW_PER_CMG) :=
  if h : 0 ≤ i ∧ i < MAX_BW_PER_CMG then .ok ⟨i.toNat, by omega⟩ else .error (.win_blades_index i)

/-- A write to `dev->cmgs[cmg]`. -/
def a64fx_hwb_device.with_cmg (dev : a64fx_hwb_device) (cmg : Fin MAX_NUM_CMG)
    (f : a64fx_cmg_device → a64fx_cmg_device) : a64fx_hwb_device :=
  { dev with cmgs := Function.update dev.cmgs cmg (f (dev.cmgs cmg)) }

/-- A write to `cmg->pe_map[i]`. -/
def a64fx_cmg_device.with_pe (cmg : a64fx_cmg_device) (i : Fin MAX_PE_PER_CMG)
    (f : a64fx_core_mapping → a64fx_core_mapping) : a64fx_cmg_device :=
  { cmg with pe_map := Function.update cmg.pe_map i (f (cmg.pe_map i)) }

/-- What tells the mappings in `task_list` apart. -/
def a64fx_task_mapping.group (taskmap : a64fx_task_mapping) : ℕ := taskmap.task.tgid

/-- What tells the allocations of one mapping apart. -/
def a64fx_task_allocation.place (alloc : a64fx_task_allocation) : ℕ × ℕ := (alloc.cmg, alloc.blade)

/-- A write through a `struct a64fx_task_mapping *`. -/
def a64fx_hwb_device.with_taskmap (dev : a64fx_hwb_device) (taskmap : a64fx_task_mapping)
    (f : a64fx_task_mapping → a64fx_task_mapping) : a64fx_hwb_device :=
  { dev with task_list := Keyed.modify a64fx_task_mapping.group taskmap.group f dev.task_list }

/-- Storing the fields of `*alloc`. -/
def a64fx_hwb_device.store_alloc (dev : a64fx_hwb_device) (taskmap : a64fx_task_mapping)
    (alloc : a64fx_task_allocation) : a64fx_hwb_device :=
  dev.with_taskmap taskmap fun m =>
    { m with
      allocs := Keyed.modify a64fx_task_allocation.place alloc.place (fun _ => alloc) m.allocs }

end A64fxHwb
