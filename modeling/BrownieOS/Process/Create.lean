import BrownieOS.Mm.AddressSpace
import BrownieOS.Process.Context

/-!
# Making processes: `proc/proc.c`

The state is physical memory with its frame bitmap, the heap, the process table and
`CR3`. A `proc_t` is kept by the address of its block, apart from the bytes of the heap:
what a block holds when `kmalloc` returns it is whatever is stored for its address.
`none` is a call that does not return, by a fault or in a frame scan without end.
Printing is left out.
-/
namespace BrownieOS.Process

open BrownieOS.Lib BrownieOS.Lib.Word32 BrownieOS.Mm

abbrev procStackTop : Nat := 0xBFFFFFF0
/-- `sizeof(proc_t)`. -/
abbrev sizeofProc : Nat := 104

structure Kernel where
  pmm : Pmm
  heap : Heap
  procs : Nat → Proc
  procList : Nat → Nat
  pidCtr : Nat
  currentProc : Nat
  cr3 : Nat

namespace Kernel

/-- `kmalloc` on the state. -/
def kmalloc (k : Kernel) (size : Nat) : Kernel × Nat :=
  let block := Mm.kmalloc k.heap size
  ({ k with
      heap := block.1
      pmm := { k.pmm with failed := k.pmm.failed || block.2 == 0 } }, block.2)

def kfree (k : Kernel) (ptr : Nat) : Kernel := { k with heap := Mm.kfree k.heap ptr }

/-- Stores to the fields of one `proc_t`. -/
def setProc (k : Kernel) (p : Nat) (proc : Proc) : Kernel :=
  { k with procs := Function.update k.procs p proc }

def setSlot (k : Kernel) (i p : Nat) : Kernel :=
  { k with procList := Function.update k.procList i p }

end Kernel

namespace Kernel

variable (k : Kernel) (p q : Nat) (proc proc' : Proc)

@[simp] theorem setProc_procs_self : (k.setProc p proc).procs p = proc :=
  Function.update_self _ _ _

theorem setProc_procs_of_ne (h : q ≠ p) : (k.setProc p proc).procs q = k.procs q :=
  Function.update_of_ne h _ _

@[simp] theorem setProc_setProc : (k.setProc p proc).setProc p proc' = k.setProc p proc' := by
  unfold setProc
  rw [Function.update_idem]

variable (size : Nat)

@[simp] theorem kmalloc_mem : (k.kmalloc size).1.pmm.mem = k.pmm.mem := rfl

@[simp] theorem kmalloc_framemap : (k.kmalloc size).1.pmm.framemap = k.pmm.framemap := rfl

end Kernel

/-! ## Boot -/

def procInit (k : Kernel) : Kernel :=
  { k with
    procList := fun i => if i < maxProc then 0 else k.procList i
    currentProc := 0 }

/-- `kernel_proc_init`; a store through NULL faults. -/
def kernelProcInit (image : KernelImage) (k : Kernel) : Option Kernel :=
  let k' := (k.kmalloc sizeofProc).1
  let kernelProc := (k.kmalloc sizeofProc).2
  if kernelProc = 0 then none
  else
    let pid := k'.pidCtr
    let k' := { k' with pidCtr := wadd k'.pidCtr 1 }
    let k' := k'.setProc kernelProc { k'.procs kernelProc with
      pid := pid
      procstate := .running
      priority := .high
      pageDirectory := image.dir
      brk := 0
      heapStart := 0
      stackTop := 0
      stackSize := 0 }
    some { k'.setSlot pid kernelProc with currentProc := kernelProc }

/-! ## Mapping pages -/

/-- The entry and the table of `proc_map_pages` where the directory had none. -/
def newTable (dir pdIdx tablePhys : Nat) (m : Mem) : Mem :=
  let table := kp2v tablePhys
  let m := m.fill (kv2p table) 4096 0
  let m := putTable m dir pdIdx table
  putDirEntry m dir pdIdx { getDirEntry m dir pdIdx with
    present := true, rw := true, user := true, frame := frameOf tablePhys }

/-- The body of the loop of `proc_map_pages`. The flag is false where it returns -1. -/
def procMapPage (dir virtAddr physAddr : Nat) (writable : Bool) (s : Pmm) : Option (Pmm × Bool) :=
  let pdIdx := pageDirIdx virtAddr
  let ptIdx := pageTblIdx virtAddr
  let entry := getDirEntry s.mem dir pdIdx
  let table := getTable s.mem dir pdIdx
  if entry.present = false then do
    let new ← s.allocPages pmmFlagsDefault 1
    if new.2 = 0 then return (new.1, false)
    else
      let m := newTable dir pdIdx new.2 new.1.mem
      return ({ new.1 with
        mem := setPage m (kp2v new.2) ptIdx (pageFrame physAddr) true writable true }, true)
  else if table = 0 then some (s, false)
  else
    let m := putDirEntry s.mem dir pdIdx { entry with rw := entry.rw || writable, user := true }
    some ({ s with mem := setPage m table ptIdx (pageFrame physAddr) true writable true }, true)

/-- The loop, for `n` more pages from `i` on. -/
def procMapLoop (dir virt phys : Nat) (writable : Bool) : Nat → Nat → Pmm → Option (Pmm × Bool)
  | _, 0, s => some (s, true)
  | i, n + 1, s => do
    let mapped ← procMapPage dir (wadd virt (wmul i pageSize)) (wadd phys (wmul i pageSize)) writable s
    if mapped.2 = false then return mapped
    else procMapLoop dir virt phys writable (i + 1) n mapped.1

/-- `proc_map_pages`. The flag is true for 0 and false for -1. -/
def procMapPages (k : Kernel) (proc virt phys pages : Nat) (writable : Bool) :
    Option (Kernel × Bool) :=
  if proc = 0 ∨ (k.procs proc).pageDirectory = 0 ∨ pages = 0 then some (k, false)
  else do
    let mapped ← procMapLoop (k.procs proc).pageDirectory virt phys writable 0 pages k.pmm
    return ({ k with pmm := mapped.1 }, mapped.2)

/-! ## Creating a process -/

/-- The scan of `create_proc` for an empty slot, with `n` slots left from `i` on. -/
def findEmptySlot (k : Kernel) : Nat → Nat → Option Nat
  | _, 0 => none
  | i, n + 1 =>
    if k.procList i = 0 ∨ (k.procs (k.procList i)).procstate = .unused then some i
    else findEmptySlot k (i + 1) n

/-- `stack_bottom_al` of `create_proc`. -/
def stackBottomAl (stackSize : Nat) : Nat := wsub procStackTop stackSize / 4096 * 4096

def stackTopAl : Nat := wadd procStackTop 0xFFF / 4096 * 4096

def stackPages (stackSize : Nat) : Nat := wsub stackTopAl (stackBottomAl stackSize) / pageSize

/-- The context of a process that has not run: the other registers stay as they are. -/
def initialContext (context : ProcContext) (entry : Nat) : ProcContext :=
  { context with
    eip := entry
    esp := procStackTop - 16
    ebp := procStackTop - 16
    useresp := procStackTop - 16
    cs := 0x1B
    ss := 0x23
    eflags := 0x202 }

/-- The last part of `create_proc`, from the saved context on. -/
def createProcFinish (k : Kernel) (proc procIdx entry : Nat) : Kernel × Nat :=
  let k := k.setProc proc { k.procs proc with
    context := initialContext (k.procs proc).context entry, kstackSize := 8192 }
  let kstackBase := (k.kmalloc 8192).2
  let k := (k.kmalloc 8192).1
  let k := k.setProc proc { k.procs proc with
    kstackBase := kstackBase, kstackTop := wadd kstackBase 8192 }
  let k := k.setSlot procIdx proc
  (k.setProc proc { k.procs proc with procstate := .running }, proc)

/-- The middle part, which gives the process its stack. -/
def createProcStack (k : Kernel) (proc procIdx entry stackSize : Nat) : Option (Kernel × Nat) := do
  let stack ← k.pmm.allocPages pmmFlagsHighmem (stackPages stackSize)
  let k := { k with pmm := stack.1 }
  let k := k.setProc proc { k.procs proc with stackTop := procStackTop, stackSize := stackSize }
  if stack.2 = 0 then return (k, 0)
  else
    let mapped ← procMapPages k proc (stackBottomAl stackSize) stack.2 (stackPages stackSize) true
    if mapped.2 = false then return (mapped.1, 0)
    else return createProcFinish mapped.1 proc procIdx entry

/-- The part that gives it its directory. -/
def createProcDirectory (image : KernelImage) (k : Kernel) (proc procIdx entry stackSize : Nat) :
    Option (Kernel × Nat) := do
  let new ← k.pmm.allocPages pmmFlagsDefault 2
  let dir := kp2v new.2
  let k := { k with pmm := new.1 }
  let k := k.setProc proc { k.procs proc with pageDirectory := dir }
  if dir = 0 then return (k.kfree proc, 0)
  else
    let pmm ← clonePageDir image.dir k.cr3 image.dir dir
      { k.pmm with mem := k.pmm.mem.fill (kv2p dir) 8192 0 }
    let k := { k with pmm := pmm }
    createProcStack (k.setProc proc { k.procs proc with cr3 := kv2p dir }) proc procIdx entry stackSize

/-- `create_proc`: the state after the call and the pointer it returns, 0 for NULL. -/
def createProc (image : KernelImage) (k : Kernel) (entry _execSize stackSize _heapSize : Nat)
    (priority : ProcPriority) : Option (Kernel × Nat) :=
  match findEmptySlot k 1 (maxProc - 1) with
  | none => some (k, 0)
  | some i =>
    let k := if k.procList i ≠ 0 then k.kfree (k.procList i) else k
    let proc := (k.kmalloc sizeofProc).2
    let k := (k.kmalloc sizeofProc).1
    if proc = 0 then some (k, 0)
    else
      let pid := k.pidCtr
      let k := { k with pidCtr := wadd k.pidCtr 1 }
      let k := k.setProc proc { k.procs proc with
        pid := pid, procstate := .setup, priority := priority }
      createProcDirectory image k proc i entry stackSize

end BrownieOS.Process
