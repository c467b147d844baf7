import BrownieOS.Mm.Kmm

/-!
# Processes and saved contexts of `proc/proc.h` and `core/isr.h`

`proc_t` with the fields the kernel reads or writes, the interrupt frame the stubs of
`interrupt.S` build, and the two conversions between a frame and a saved context.
-/
namespace BrownieOS.Process

/-- `proc_context_t`. -/
structure ProcContext where
  edi : Nat
  esi : Nat
  ebp : Nat
  esp : Nat
  ebx : Nat
  edx : Nat
  ecx : Nat
  eax : Nat
  eip : Nat
  cs : Nat
  eflags : Nat
  useresp : Nat
  ss : Nat
  deriving DecidableEq

/-- `int_regs_t`. -/
structure IntRegs where
  edi : Nat
  esi : Nat
  ebp : Nat
  esp : Nat
  ebx : Nat
  edx : Nat
  ecx : Nat
  eax : Nat
  intNo : Nat
  errCode : Nat
  eip : Nat
  cs : Nat
  eflags : Nat
  useresp : Nat
  ss : Nat
  deriving DecidableEq

/-- `procstate_t`. -/
inductive ProcState where
  | unused
  | setup
  | running
  | blocked
  | destroy
  deriving DecidableEq

/-- `procpriority_t`. -/
inductive ProcPriority where
  | low
  | normal
  | high
  deriving DecidableEq

/-- `proc_t`. The pointers are kernel virtual addresses, 0 for NULL. -/
structure Proc where
  pid : Nat
  pageDirectory : Nat
  context : ProcContext
  procstate : ProcState
  priority : ProcPriority
  brk : Nat
  heapStart : Nat
  stackTop : Nat
  stackSize : Nat
  kstackTop : Nat
  kstackSize : Nat
  kstackBase : Nat
  cr3 : Nat
  deriving DecidableEq

abbrev maxProc : Nat := 64

def procContextFromRegs (src : IntRegs) : ProcContext where
  edi := src.edi
  esi := src.esi
  ebp := src.ebp
  esp := src.esp
  ebx := src.ebx
  edx := src.edx
  ecx := src.ecx
  eax := src.eax
  eip := src.eip
  eflags := src.eflags
  cs := src.cs
  useresp := src.useresp
  ss := src.ss

def procContextToRegs (dest : IntRegs) (src : ProcContext) : IntRegs :=
  { dest with
    edi := src.edi
    esi := src.esi
    ebp := src.ebp
    esp := src.esp
    ebx := src.ebx
    edx := src.edx
    ecx := src.ecx
    eax := src.eax
    eip := src.eip
    eflags := src.eflags
    cs := src.cs
    useresp := src.useresp
    ss := src.ss }

/-- A context put into a frame is what the frame then saves. -/
@[simp] theorem procContextFromRegs_toRegs (dest : IntRegs) (src : ProcContext) :
    procContextFromRegs (procContextToRegs dest src) = src := rfl

@[simp] theorem procContextToRegs_intNo (dest : IntRegs) (src : ProcContext) :
    (procContextToRegs dest src).intNo = dest.intNo := rfl

@[simp] theorem procContextToRegs_errCode (dest : IntRegs) (src : ProcContext) :
    (procContextToRegs dest src).errCode = dest.errCode := rfl

end BrownieOS.Process
