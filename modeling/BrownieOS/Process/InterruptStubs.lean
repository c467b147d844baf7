import BrownieOS.Lib.WordStack
import BrownieOS.Process.TimeSlices

/-!
# The stubs of `core/interrupts/interrupt.S`

The processor and the stub push the registers of what was interrupted, a C function is called with
the address of the words, and they are popped again. In memory the words are the frame that the
handlers are written for, and what the handler leaves there is what goes on afterwards. Memory is
what the kernel sees at its virtual addresses, where its stacks are.
-/
namespace BrownieOS.Process

open BrownieOS.Lib BrownieOS.Lib.Word32 BrownieOS.Core

/-- The C function that a stub calls. -/
inductive StubTarget
  | isrHandler
  | irqHandler
  deriving DecidableEq

/-- The instructions of the stubs up to `iret`. -/
inductive StubInstr
  | cli
  | pushl (imm : Nat)
  | pushal
  | movlEspEax
  | pushlEax
  | call (target : StubTarget)
  | addlEsp (n : Nat)
  | popal

def isrCommonHandler : List StubInstr :=
  [.pushal, .movlEspEax, .pushlEax, .call .isrHandler, .addlEsp 4, .popal, .addlEsp 8]

def irqCommonHandler : List StubInstr :=
  [.pushal, .movlEspEax, .pushlEax, .call .irqHandler, .addlEsp 4, .popal, .addlEsp 8]

def isrErrcode (num : Nat) : List StubInstr := [.cli, .pushl num] ++ isrCommonHandler

def isrNoErrcode (num : Nat) : List StubInstr := [.cli, .pushl 0, .pushl num] ++ isrCommonHandler

def irqStub (num : Nat) : List StubInstr := [.cli, .pushl 0, .pushl num] ++ irqCommonHandler

/-- The vectors of `ISR_ERRCODE`. -/
def isrErrcodeVectors : List Nat := [8, 10, 11, 12, 13, 14, 17, 21]

/-- The exceptions for which the processor pushes an error code: double fault, invalid TSS, segment
not present, stack fault, general protection, page fault, alignment check, control protection. -/
def errorCodeVectors : List Nat := [8, 10, 11, 12, 13, 14, 17, 21]

/-- The stub of a vector: `isr0` to `isr31`, `irq0` to `irq15`, `isr128`. -/
def stubOf (v : Nat) : Option (List StubInstr) :=
  if v ∈ isrErrcodeVectors then some (isrErrcode v)
  else if v < 32 ∨ v = 128 then some (isrNoErrcode v)
  else if v < 48 then some (irqStub v)
  else none

def targetOf (v : Nat) : StubTarget := if v < 32 ∨ v = 128 then .isrHandler else .irqHandler

/-- The registers in kernel mode. -/
structure StubCpu where
  stack : WordStack
  edi : Nat
  esi : Nat
  ebp : Nat
  ebx : Nat
  edx : Nat
  ecx : Nat
  eax : Nat
  eflags : Nat

/-- What a compiled C function leaves: memory, and the registers that are the caller's to save. -/
structure CallResult where
  mem : Mem
  edx : Nat
  ecx : Nat
  eax : Nat

/-- The C functions, given memory and the pointer they are passed. -/
abbrev Callee : Type := StubTarget → Mem → Nat → CallResult

/-- Where an `iret` goes on. -/
inductive Resumed
  | user (mem : Mem) (regs : UserRegs)
  | kernel (cpu : StubCpu) (eip cs : Nat)

def clearIf (eflags : Nat) : Nat := eflags &&& 0xFFFFFDFF

namespace StubCpu

/-- The word `n` words above the stack pointer. -/
def word (c : StubCpu) (n : Nat) : Nat := c.stack.mem.get32 (wadd c.stack.esp (4 * n))

/-- What `pushal` pushes, with `esp` as it was before. -/
def words (c : StubCpu) : List Nat := [c.eax, c.ecx, c.edx, c.ebx, c.stack.esp, c.ebp, c.esi, c.edi]

/-- After the `ret` of a function, which leaves the stack pointer where it was at the call. -/
def returned (c : StubCpu) (r : CallResult) : StubCpu :=
  { c with stack := ⟨r.mem, c.stack.esp⟩, edx := r.edx, ecx := r.ecx, eax := r.eax }

/-- One instruction; `ret` is the return address that a call pushes. -/
def exec (callee : Callee) (ret : Nat) (c : StubCpu) : StubInstr → StubCpu
  | .cli => { c with eflags := clearIf c.eflags }
  | .pushl imm => { c with stack := c.stack.push imm }
  | .pushal => { c with stack := c.stack.pushAll c.words }
  | .movlEspEax => { c with eax := c.stack.esp }
  | .pushlEax => { c with stack := c.stack.push c.eax }
  | .call target =>
    let called := { c with stack := c.stack.push ret }
    c.returned (callee target called.stack.mem (called.word 1))
  | .addlEsp n => { c with stack := c.stack.drop n }
  | .popal =>
    { c with
      edi := c.word 0
      esi := c.word 1
      ebp := c.word 2
      ebx := c.word 4
      edx := c.word 5
      ecx := c.word 6
      eax := c.word 7
      stack := c.stack.drop 32 }

/-- `iret`; the stack pointer and `ss` are popped on the way to user mode only. -/
def iret (c : StubCpu) : Resumed :=
  if c.word 1 &&& 0x3 = 0x3 then
    .user c.stack.mem
      { edi := c.edi
        esi := c.esi
        ebp := c.ebp
        ebx := c.ebx
        edx := c.edx
        ecx := c.ecx
        eax := c.eax
        eip := c.word 0
        cs := c.word 1
        eflags := c.word 2
        useresp := c.word 3
        ss := c.word 4 }
  else .kernel { c with stack := c.stack.drop 12, eflags := c.word 2 } (c.word 0) (c.word 1)

end StubCpu

def runStub (callee : Callee) (ret : Nat) (stub : List StubInstr) (c : StubCpu) : Resumed :=
  (stub.foldl (StubCpu.exec callee ret) c).iret

/-- The error code, if the processor pushes one with this vector. -/
def pushedError (v errCode : Nat) : List Nat := if v ∈ errorCodeVectors then [errCode] else []

/-- An interrupt: the processor pushes where it stopped, and clears IF. -/
def StubCpu.interrupted (c : StubCpu) (eip cs v errCode : Nat) : StubCpu :=
  { c with
    stack := c.stack.pushAll ([c.eflags, cs, eip] ++ pushedError v errCode)
    eflags := clearIf c.eflags }

/-- In user mode it takes the kernel stack at `esp0` first. -/
def UserRegs.onKernelStack (u : UserRegs) (m : Mem) (esp0 : Nat) : StubCpu where
  stack := (⟨m, esp0⟩ : WordStack).pushAll [u.ss, u.useresp]
  edi := u.edi
  esi := u.esi
  ebp := u.ebp
  ebx := u.ebx
  edx := u.edx
  ecx := u.ecx
  eax := u.eax
  eflags := u.eflags

def UserRegs.interrupted (u : UserRegs) (m : Mem) (esp0 v errCode : Nat) : StubCpu :=
  (u.onKernelStack m esp0).interrupted u.eip u.cs v errCode

/-- `int_regs_t` in memory. -/
def readRegs (m : Mem) (a : Nat) : IntRegs where
  edi := m.get32 a
  esi := m.get32 (wadd a 4)
  ebp := m.get32 (wadd a 8)
  esp := m.get32 (wadd a 12)
  ebx := m.get32 (wadd a 16)
  edx := m.get32 (wadd a 20)
  ecx := m.get32 (wadd a 24)
  eax := m.get32 (wadd a 28)
  intNo := m.get32 (wadd a 32)
  errCode := m.get32 (wadd a 36)
  eip := m.get32 (wadd a 40)
  cs := m.get32 (wadd a 44)
  eflags := m.get32 (wadd a 48)
  useresp := m.get32 (wadd a 52)
  ss := m.get32 (wadd a 56)

/-- Every register holds a word. -/
structure UserRegs.Words (u : UserRegs) : Prop where
  edi : u.edi < 4294967296
  esi : u.esi < 4294967296
  ebp : u.ebp < 4294967296
  ebx : u.ebx < 4294967296
  edx : u.edx < 4294967296
  ecx : u.ecx < 4294967296
  eax : u.eax < 4294967296
  eip : u.eip < 4294967296
  cs : u.cs < 4294967296
  eflags : u.eflags < 4294967296
  useresp : u.useresp < 4294967296
  ss : u.ss < 4294967296

/-- What goes on when the words of a frame at `fp` have been popped. -/
def IntRegs.resumed (r : IntRegs) (m : Mem) (fp : Nat) : Resumed :=
  if r.cs &&& 0x3 = 0x3 then .user m r.user
  else
    .kernel
      { stack := ⟨m, wadd fp 52⟩
        edi := r.edi
        esi := r.esi
        ebp := r.ebp
        ebx := r.ebx
        edx := r.edx
        ecx := r.ecx
        eax := r.eax
        eflags := r.eflags }
      r.eip r.cs

/-- What the stub pushes before the registers. -/
def stubWords (v : Nat) : List Nat := (if v ∈ isrErrcodeVectors then [] else [0]) ++ [v]

/-- The error code in the frame: the stub pushes 0 where the processor pushes none. -/
def frameError (v errCode : Nat) : Nat := if v ∈ errorCodeVectors then errCode else 0

/-- All words from an interrupt to the first instruction of the function, with the frame at `fp`. -/
def StubCpu.frameWords (c : StubCpu) (eip cs v errCode fp ret : Nat) : List Nat :=
  [c.eflags, cs, eip, frameError v errCode, v, c.eax, c.ecx, c.edx, c.ebx, fp + 32, c.ebp, c.esi,
    c.edi, fp, ret]

/-- Memory when the function is called. -/
def StubCpu.callMem (c : StubCpu) (eip cs v errCode fp ret : Nat) : Mem :=
  (c.stack.pushAll (c.frameWords eip cs v errCode fp ret)).mem

/-- Every register holds a word, and the stack has room for the words. -/
structure StubCpu.Ready (c : StubCpu) (fp : Nat) : Prop where
  edi : c.edi < 4294967296
  esi : c.esi < 4294967296
  ebp : c.ebp < 4294967296
  ebx : c.ebx < 4294967296
  edx : c.edx < 4294967296
  ecx : c.ecx < 4294967296
  eax : c.eax < 4294967296
  eflags : c.eflags < 4294967296
  esp : c.stack.esp = fp + 52
  low : 8 ≤ fp
  high : fp + 60 < 4294967296

/-- A C function that leaves memory alone. -/
def idleCallee : Callee := fun _ m _ => ⟨m, 0, 0, 0⟩

/-- A process of two, entered, with no tick of its turn gone. -/
def enteredMachine : Machine where
  mem := fun _ => 0
  sched := { twoProcs with currentProc := 0xC0400010, esp0 := 0xC0600000, tick := 0 }
  regs := (userFrame 0x400123).user
  console := []

section InterruptStubs

variable {callee : Callee} {ret v errCode esp0 fp : Nat} {c : StubCpu} {u : UserRegs} {m : Mem}
  {stub : List StubInstr} {target : StubTarget} {eip cs : Nat}

theorem runStub_cons (callee : Callee) (ret : Nat) (i : StubInstr) (is : List StubInstr) (c : StubCpu) :
    runStub callee ret (i :: is) c = runStub callee ret is (c.exec callee ret i) := by
  rw [runStub, runStub, List.foldl_cons]

/-! ## The parts of a stub -/

theorem runStub_cli (callee : Callee) (ret : Nat) (vs : List Nat) (is : List StubInstr) (c : StubCpu) :
    runStub callee ret (.cli :: (vs.map StubInstr.pushl ++ is)) c =
      runStub callee ret is { c with stack := c.stack.pushAll vs, eflags := clearIf c.eflags } := by
  rw [runStub_cons, StubCpu.exec]
  generalize hc : ({ c with eflags := clearIf c.eflags } : StubCpu) = c'
  have hpushes : ∀ vs : List Nat, ∀ c : StubCpu, runStub callee ret (vs.map StubInstr.pushl ++ is) c =
      runStub callee ret is { c with stack := c.stack.pushAll vs } := by
    intro vs
    induction vs with
    | nil => exact fun _ => rfl
    | cons v vs ih =>
      intro c
      rw [List.map_cons, List.cons_append, runStub_cons, StubCpu.exec, ih, WordStack.pushAll_cons]
  rw [hpushes, ← hc]

/-- The first part of a stub leaves an error code and the vector on the stack in every case. -/
theorem stubOf_split (hstub : stubOf v = some stub) (callee : Callee) (ret : Nat) (c : StubCpu) :
    runStub callee ret stub c = runStub callee ret
      [.pushal, .movlEspEax, .pushlEax, .call (targetOf v), .addlEsp 4, .popal, .addlEsp 8]
      { c with stack := c.stack.pushAll (stubWords v), eflags := clearIf c.eflags } := by
  rw [← runStub_cli]
  unfold stubOf at hstub
  split at hstub
  · rename_i herr
    have hlow : v < 32 := by
      simp only [isrErrcodeVectors, List.mem_cons, List.not_mem_nil, or_false] at herr
      omega
    rw [← Option.some.inj hstub, stubWords, if_pos herr, targetOf, if_pos (Or.inl hlow), isrErrcode,
      isrCommonHandler, List.map_append, List.map_nil, List.nil_append, List.map_cons, List.map_nil]
    simp only [List.cons_append, List.nil_append]
  · rename_i herr
    split at hstub
    · rename_i hisr
      rw [← Option.some.inj hstub, stubWords, if_neg herr, targetOf, if_pos hisr, isrNoErrcode,
        isrCommonHandler]
      simp only [List.map_cons, List.map_nil, List.cons_append, List.nil_append]
    · rename_i hisr
      split at hstub
      · rw [← Option.some.inj hstub, stubWords, if_neg herr, targetOf, if_neg hisr, irqStub, irqCommonHandler]
        simp only [List.map_cons, List.map_nil, List.cons_append, List.nil_append]
      · cases hstub

theorem exec_pushal_stack (callee : Callee) (ret : Nat) (c : StubCpu) :
    (c.exec callee ret .pushal).stack = c.stack.pushAll c.words := rfl

theorem exec_pushlEax_stack (callee : Callee) (ret : Nat) (c : StubCpu) :
    ((c.exec callee ret .movlEspEax).exec callee ret .pushlEax).stack = c.stack.push c.stack.esp := rfl

theorem exec_call_stack (callee : Callee) (ret : Nat) (target : StubTarget) (c : StubCpu) :
    (c.exec callee ret (.call target)).stack =
      ⟨(callee target (c.stack.push ret).mem
        ((c.stack.push ret).mem.get32 (wadd (c.stack.push ret).esp 4))).mem,
        c.stack.esp⟩ := rfl

/-- Up to the call: the function is given the address of the words. -/
theorem runStub_call (callee : Callee) (ret : Nat) (target : StubTarget) (hesp : c.stack.esp = fp + 32)
    (hlow : 8 ≤ fp) (hhigh : fp + 32 < 4294967296) (is : List StubInstr) :
    ∃ c', c'.stack = ⟨(callee target (c.stack.pushAll (c.words ++ [fp, ret])).mem fp).mem, fp - 4⟩ ∧
      runStub callee ret (.pushal :: .movlEspEax :: .pushlEax :: .call target :: is) c =
        runStub callee ret is c' := by
  have hwords : c.words.length = 8 := rfl
  have hpushed : (c.stack.pushAll c.words).esp = fp := by
    rw [WordStack.pushAll_esp (by omega) (by omega), hwords, hesp]
    omega
  have hpointer : ((c.stack.pushAll c.words).push fp).esp = fp - 4 := by
    rw [WordStack.push_esp, hpushed, wsub_of_le (by omega) (by omega)]
  have hcalled : ((c.stack.pushAll c.words).push fp).push ret = c.stack.pushAll (c.words ++ [fp, ret]) :=
    (WordStack.pushAll_append c.stack c.words [fp, ret]).symm
  have hbelow : (c.stack.pushAll (c.words ++ [fp, ret])).esp = fp - 8 := by
    rw [← hcalled, WordStack.push_esp, hpointer, wsub_of_le (by omega) (by omega)]
    omega
  have hargument : (c.stack.pushAll (c.words ++ [fp, ret])).mem.get32 (fp - 4) = fp := by
    rw [← hcalled, WordStack.push_mem, hpointer, wsub_of_le (by omega) (by omega),
      Mem.get32_set32_of_apart _ _ (by omega), WordStack.push_mem, hpushed,
      wsub_of_le (by omega) (by omega), Mem.get32_set32_self _ _ (by omega)]
  have hword : wadd (fp - 8) 4 = fp - 4 := by
    rw [wadd_of_lt (by omega)]
    omega
  have hargument' : (c.stack.pushAll (c.words ++ [fp, ret])).mem.get32
      (wadd (c.stack.pushAll (c.words ++ [fp, ret])).esp 4) = fp := by
    rw [hbelow, hword, hargument]
  rw [runStub_cons, runStub_cons, runStub_cons, runStub_cons]
  refine ⟨_, ?_, rfl⟩
  rw [exec_call_stack, exec_pushlEax_stack, exec_pushal_stack, hpushed, hcalled, hpointer, hargument']

/-- The rest pops the words, as the function has left them. -/
theorem runStub_return (hesp : c.stack.esp = fp - 4) (hlow : 8 ≤ fp) (hhigh : fp + 60 < 4294967296) :
    runStub callee ret [.addlEsp 4, .popal, .addlEsp 8] c =
      (readRegs c.stack.mem fp).resumed c.stack.mem fp := by
  have hdropped : wadd c.stack.esp 4 = fp := by
    rw [hesp, wadd_of_lt (by omega)]
    omega
  have hzero : wadd fp 0 = fp := wadd_of_lt (by omega)
  simp only [runStub, List.foldl_cons, List.foldl_nil, StubCpu.exec, StubCpu.iret, StubCpu.word,
    WordStack.drop, hdropped, wadd_wadd, readRegs, IntRegs.resumed, IntRegs.user, Nat.mul_zero, hzero,
    Nat.reduceMul, Nat.reduceAdd]
  rfl

/-- The stubs leave out the 0 for the very vectors with which the processor pushes an error code. -/
theorem isrErrcodeVectors_eq : isrErrcodeVectors = errorCodeVectors := rfl

/-- The words on the stack after the first part of a stub. -/
theorem pushedError_stubWords (v errCode : Nat) :
    pushedError v errCode ++ stubWords v = [frameError v errCode, v] := by
  unfold pushedError stubWords frameError
  rw [isrErrcodeVectors_eq]
  split <;> rfl

/-- The function is called on the frame, and what it leaves there goes on. -/
theorem runStub_interrupted (callee : Callee) (ret eip cs errCode : Nat) (hstub : stubOf v = some stub)
    (hc : c.Ready fp) :
    runStub callee ret stub (c.interrupted eip cs v errCode) =
      (readRegs (callee (targetOf v) (c.callMem eip cs v errCode fp ret) fp).mem fp).resumed
        (callee (targetOf v) (c.callMem eip cs v errCode fp ret) fp).mem fp := by
  have hlow := hc.low
  have hhigh := hc.high
  have hstack : (c.stack.pushAll ([c.eflags, cs, eip] ++ pushedError v errCode)).pushAll (stubWords v) =
      c.stack.pushAll [c.eflags, cs, eip, frameError v errCode, v] := by
    rw [← WordStack.pushAll_append, List.append_assoc, pushedError_stubWords]
    rfl
  have hesp : (c.stack.pushAll [c.eflags, cs, eip, frameError v errCode, v]).esp = fp + 32 := by
    have hlength : [c.eflags, cs, eip, frameError v errCode, v].length = 5 := rfl
    have hesp := hc.esp
    rw [WordStack.pushAll_esp (by omega) (by omega), hlength, hesp]
    omega
  rw [stubOf_split hstub, StubCpu.interrupted]
  simp only [hstack]
  generalize hstate : ({ c with
    stack := c.stack.pushAll [c.eflags, cs, eip, frameError v errCode, v]
    eflags := clearIf (clearIf c.eflags) } : StubCpu) = c₁
  have hmem : (c₁.stack.pushAll (c₁.words ++ [fp, ret])).mem = c.callMem eip cs v errCode fp ret := by
    rw [StubCpu.callMem, StubCpu.words, ← hstate]
    simp only [hesp]
    rw [← WordStack.pushAll_append]
    rfl
  have hesp₁ : c₁.stack.esp = fp + 32 := by rw [← hstate]; exact hesp
  obtain ⟨c', hc', hrun⟩ := runStub_call callee ret (targetOf v) hesp₁ hlow (by omega)
    [.addlEsp 4, .popal, .addlEsp 8]
  rw [hrun, runStub_return (by rw [hc']) hlow hhigh, hc', hmem]

/-! ## The frame -/

/-- The frame in memory when the function is called. -/
theorem readRegs_callMem (hc : c.Ready fp) (heip : eip < 4294967296) (hcs : cs < 4294967296)
    (hv : v < 4294967296) (herr : errCode < 4294967296) (hret : ret < 4294967296) :
    readRegs (c.callMem eip cs v errCode fp ret) fp =
      { edi := c.edi
        esi := c.esi
        ebp := c.ebp
        esp := fp + 32
        ebx := c.ebx
        edx := c.edx
        ecx := c.ecx
        eax := c.eax
        intNo := v
        errCode := frameError v errCode
        eip := eip
        cs := cs
        eflags := c.eflags
        useresp := c.stack.mem.get32 (fp + 52)
        ss := c.stack.mem.get32 (fp + 56) } := by
  have hlow := hc.low
  have hhigh := hc.high
  have hesp := hc.esp
  have hroom : 4 * (c.frameWords eip cs v errCode fp ret).length ≤ c.stack.esp := by
    rw [hesp]
    exact Nat.le_trans (show 4 * 15 ≤ 8 + 52 by decide) (Nat.add_le_add_right hlow 52)
  have hframeError : frameError v errCode < 4294967296 := by
    unfold frameError
    split
    · exact herr
    · decide
  have hwords : ∀ w ∈ c.frameWords eip cs v errCode fp ret, w < 4294967296 := by
    simp only [StubCpu.frameWords, List.forall_mem_cons, List.not_mem_nil, false_implies,
      implies_true, and_true]
    exact ⟨hc.eflags, hcs, heip, hframeError, hv, hc.eax, hc.ecx, hc.edx, hc.ebx,
      by omega, hc.ebp, hc.esi, hc.edi, by omega, hret⟩
  -- The word at offset `n` is the one pushed after `i` others.
  have hat : ∀ n i, n + 4 * (i + 1) = 52 → i < 15 →
      (c.callMem eip cs v errCode fp ret).get32 (wadd fp n) =
        (c.frameWords eip cs v errCode fp ret).getD i 0 := by
    intro n i hn hlt
    have hi : i < (c.frameWords eip cs v errCode fp ret).length := hlt
    have hword := WordStack.pushAll_word (by omega) hroom hwords hi
    rw [hesp, show fp + 52 - 4 * (i + 1) = fp + n by omega] at hword
    rw [wadd_of_lt (by omega), StubCpu.callMem, hword, List.getElem_eq_getD 0]
  have habove : ∀ n, 52 ≤ n → n ≤ 56 →
      (c.callMem eip cs v errCode fp ret).get32 (wadd fp n) = c.stack.mem.get32 (fp + n) := by
    intro n hlo hhi
    rw [wadd_of_lt (by omega), StubCpu.callMem]
    exact (WordStack.pushAll_agree (by omega) hroom).get32 (Or.inr (by omega))
  have hzero : (c.callMem eip cs v errCode fp ret).get32 fp =
      (c.frameWords eip cs v errCode fp ret).getD 12 0 := by
    rw [← hat 0 12 rfl (by decide), wadd_of_lt (by omega), Nat.add_zero]
  rw [readRegs, hzero, hat 4 11 rfl (by decide), hat 8 10 rfl (by decide), hat 12 9 rfl (by decide),
    hat 16 8 rfl (by decide), hat 20 7 rfl (by decide), hat 24 6 rfl (by decide), hat 28 5 rfl (by decide),
    hat 32 4 rfl (by decide), hat 36 3 rfl (by decide), hat 40 2 rfl (by decide), hat 44 1 rfl (by decide),
    hat 48 0 rfl (by decide), habove 52 (by decide) (by decide), habove 56 (by decide) (by decide)]
  rfl

theorem UserRegs.Words.ready (hu : u.Words) (hlow : 68 ≤ esp0) (hesp0 : esp0 < 4294967296) (m : Mem) :
    (u.onKernelStack m esp0).Ready (esp0 - 60) where
  edi := hu.edi
  esi := hu.esi
  ebp := hu.ebp
  ebx := hu.ebx
  edx := hu.edx
  ecx := hu.ecx
  eax := hu.eax
  eflags := hu.eflags
  esp := by
    rw [UserRegs.onKernelStack, WordStack.pushAll_esp hesp0 (Nat.le_trans (show 4 * 2 ≤ 68 by decide) hlow)]
    simp only [List.length_cons, List.length_nil]
    omega
  low := by omega
  high := by omega

/-- The stack pointer and `ss` of user mode lie above the rest of the frame. -/
theorem onKernelStack_word (hu : u.Words) (hlow : 68 ≤ esp0) (hesp0 : esp0 < 4294967296) (m : Mem) :
    (u.onKernelStack m esp0).stack.mem.get32 (esp0 - 60 + 52) = u.useresp ∧
      (u.onKernelStack m esp0).stack.mem.get32 (esp0 - 60 + 56) = u.ss := by
  have hwords : ∀ w ∈ [u.ss, u.useresp], w < 4294967296 := by
    simp only [List.forall_mem_cons, List.not_mem_nil, false_implies, implies_true, and_true]
    exact ⟨hu.ss, hu.useresp⟩
  have hroom : 4 * [u.ss, u.useresp].length ≤ esp0 := Nat.le_trans (show 4 * 2 ≤ 68 by decide) hlow
  have hword : ∀ i (hi : i < [u.ss, u.useresp].length),
      (u.onKernelStack m esp0).stack.mem.get32 (esp0 - 4 * (i + 1)) = [u.ss, u.useresp].get ⟨i, hi⟩ :=
    fun i hi => WordStack.pushAll_word (s := ⟨m, esp0⟩) hesp0 hroom hwords hi
  rw [show esp0 - 60 + 52 = esp0 - 4 * (1 + 1) by omega, show esp0 - 60 + 56 = esp0 - 4 * (0 + 1) by omega]
  exact ⟨hword 1 (by simp), hword 0 (by simp)⟩

/-- Between the interrupt and the call nothing is written but the words. -/
theorem callMem_agree (hc : c.Ready fp) (eip cs v errCode ret : Nat) :
    Mem.AgreeOff c.stack.mem (c.callMem eip cs v errCode fp ret) (fp - 8) (fp + 52) := by
  have hlow := hc.low
  have hhigh := hc.high
  have hroom : 4 * (c.frameWords eip cs v errCode fp ret).length ≤ c.stack.esp := by
    rw [hc.esp]
    exact Nat.le_trans (show 4 * 15 ≤ 8 + 52 by decide) (Nat.add_le_add_right hlow 52)
  have hagree := WordStack.pushAll_agree (by rw [hc.esp]; omega) hroom
  rw [hc.esp] at hagree
  exact hagree

theorem stubOf_lt (hstub : stubOf v = some stub) : v < 4294967296 := by
  unfold stubOf at hstub
  split at hstub
  · rename_i herr
    simp only [isrErrcodeVectors, List.mem_cons, List.not_mem_nil, or_false] at herr
    omega
  · split at hstub
    · omega
    · split at hstub
      · omega
      · cases hstub

/-- In user mode the function is called on the frame of the registers, with nothing written but the 68 bytes
below `esp0`; when it has put the frame `r` in place, user mode goes on with the registers of `r`. -/
theorem runStub_user (callee : Callee) (ret : Nat) (m : Mem) (hstub : stubOf v = some stub) (hu : u.Words)
    (herr : errCode < 4294967296) (hlow : 68 ≤ esp0) (hesp0 : esp0 < 4294967296) (hret : ret < 4294967296)
    {r : IntRegs} (hcs : r.cs &&& 0x3 = 0x3)
    (hhandler : ∀ m', Mem.AgreeOff m m' (esp0 - 68) esp0 →
      readRegs m' (esp0 - 60) = u.frame (esp0 - 28) v (frameError v errCode) →
      readRegs (callee (targetOf v) m' (esp0 - 60)).mem (esp0 - 60) = r) :
    ∃ m', Mem.AgreeOff m m' (esp0 - 68) esp0 ∧
      runStub callee ret stub (u.interrupted m esp0 v errCode) =
        .user (callee (targetOf v) m' (esp0 - 60)).mem r.user := by
  have hready := hu.ready hlow hesp0 m
  obtain ⟨huseresp, hss⟩ := onKernelStack_word hu hlow hesp0 m
  have hagree : Mem.AgreeOff m ((u.onKernelStack m esp0).callMem u.eip u.cs v errCode (esp0 - 60) ret)
      (esp0 - 68) esp0 := by
    have hpushed : Mem.AgreeOff m ((⟨m, esp0⟩ : WordStack).pushAll [u.ss, u.useresp]).mem
        (esp0 - 4 * [u.ss, u.useresp].length) esp0 :=
      WordStack.pushAll_agree (s := ⟨m, esp0⟩) hesp0 (Nat.le_trans (show 4 * 2 ≤ 68 by decide) hlow)
    have hlength : [u.ss, u.useresp].length = 2 := rfl
    have hcalled := callMem_agree hready u.eip u.cs v errCode ret
    exact (hpushed.mono (by omega) (Nat.le_refl _)).trans (hcalled.mono (by omega) (by omega))
  have hframe : readRegs ((u.onKernelStack m esp0).callMem u.eip u.cs v errCode (esp0 - 60) ret) (esp0 - 60) =
      u.frame (esp0 - 28) v (frameError v errCode) := by
    rw [readRegs_callMem hready hu.eip hu.cs (stubOf_lt hstub) herr hret, huseresp, hss,
      show esp0 - 60 + 32 = esp0 - 28 by omega]
    rfl
  refine ⟨_, hagree, ?_⟩
  have hrun := runStub_interrupted callee ret u.eip u.cs errCode hstub hready
  rw [hhandler _ hagree hframe, IntRegs.resumed, if_pos hcs] at hrun
  exact hrun

theorem sysPrintString_cs {cr3 : Nat} {proc : Option Proc} {regs : IntRegs} {stack : Nat → Byte}
    {r : PrintResult}
    (h : sysPrintString m cr3 proc regs stack = some r) : r.regs.cs = regs.cs := by
  unfold sysPrintString at h
  split at h
  · rw [← Option.some.inj h]
  · dsimp only at h
    split at h
    · rw [← Option.some.inj h]
    · split at h
      · cases h
      · rw [← Option.some.inj h]
      · rw [← Option.some.inj h]

/-- A result stored in the frame, as `sys_print_string` does. -/
theorem readRegs_setEax {a w : Nat} (m : Mem) (ha : a + 60 < 4294967296) (hw : w < 4294967296) :
    readRegs (m.set32 (wadd a 28) w) a = { readRegs m a with eax := w } := by
  have hother : ∀ n, n ≤ 56 → n + 4 ≤ 28 ∨ 32 ≤ n →
      (m.set32 (wadd a 28) w).get32 (wadd a n) = m.get32 (wadd a n) := by
    intro n hn hapart
    rw [wadd_of_lt (by omega), wadd_of_lt (by omega), Mem.get32_set32_of_apart _ _ (by omega)]
  have hfirst : (m.set32 (wadd a 28) w).get32 a = m.get32 a := by
    rw [wadd_of_lt (by omega), Mem.get32_set32_of_apart _ _ (by omega)]
  unfold readRegs
  rw [Mem.get32_set32_self _ _ hw, hfirst]
  simp only [hother, Nat.reduceAdd, Nat.reduceLeDiff, true_or, or_true]

/-! ## Interrupts of the machine -/

/-- The tick of the machine through its stub: when `irq_handler` puts into the frame what
`pit_handler` makes of it, user mode goes on with the registers of `Machine.timer`. -/
theorem timer_interrupted (callee : Callee) (ret : Nat) (t : Machine) (m : Mem) (ht : t.InUserMode)
    (hu : t.regs.Words) (hlow : 68 ≤ t.sched.esp0) (hesp0 : t.sched.esp0 < 4294967296)
    (hret : ret < 4294967296) (hstub : stubOf 32 = some stub)
    (hhandler : ∀ m', Mem.AgreeOff m m' (t.sched.esp0 - 68) t.sched.esp0 →
      readRegs m' (t.sched.esp0 - 60) = t.regs.frame (t.sched.esp0 - 28) 32 0 →
      readRegs (callee .irqHandler m' (t.sched.esp0 - 60)).mem (t.sched.esp0 - 60) =
        (pitHandler t.sched (t.regs.frame (t.sched.esp0 - 28) 32 0)).2) :
    ∃ m', Mem.AgreeOff m m' (t.sched.esp0 - 68) t.sched.esp0 ∧
      runStub callee ret stub (t.regs.interrupted m t.sched.esp0 32 0) =
        .user (callee .irqHandler m' (t.sched.esp0 - 60)).mem (t.timer (t.sched.esp0 - 28)).regs := by
  have hresult := pitHandler_result t.sched (t.regs.frame (t.sched.esp0 - 28) 32 0)
  have hcs := (hresult.userMode ht.regs ht.current).2.2.1
  exact runStub_user callee ret m hstub hu (by decide) hlow hesp0 hret hcs hhandler

theorem enteredMachine_words : enteredMachine.regs.Words := by
  constructor <;> decide

/-- The first tick of a turn. -/
theorem timer_interrupted_idle : ∃ m',
    runStub idleCallee 0 (irqStub 32) (enteredMachine.regs.interrupted enteredMachine.mem 0xC0600000 32 0) =
      .user m' (enteredMachine.timer (0xC0600000 - 28)).regs := by
  have huser : enteredMachine.InUserMode := ⟨by decide, by decide⟩
  have hstub : stubOf 32 = some (irqStub 32) := rfl
  obtain ⟨m', -, hrun⟩ := timer_interrupted idleCallee 0 enteredMachine enteredMachine.mem huser
    enteredMachine_words (by decide) (by decide)
      (by decide) hstub (fun m' _ hframe => hframe.trans (by decide))
  exact ⟨_, hrun⟩

/-- The handlers of `syscall_init` leave the code segment of the frame. -/
theorem isrHandler_cs {t : Machine} {code : HandlerCode Machine} {v₀ : Vectors} {stack : Nat → Byte}
    {regs : IntRegs} {r : Machine × IntRegs} (hcode : code.printString = Machine.printString stack)
    (hvec : regs.intNo = syscallVector)
    (hcall : isrHandler code (syscallInit code v₀) t regs = some r) : r.2.cs = regs.cs := by
  rw [isrHandler_init code v₀ t regs hvec] at hcall
  by_cases hprint : regs.eax = sysPrintStringNumber
  · rw [if_pos hprint, hcode, Machine.printString] at hcall
    obtain ⟨printed, hprinted, rfl⟩ := Option.map_eq_some_iff.1 hcall
    exact sysPrintString_cs hprinted
  · rw [if_neg hprint] at hcall
    rw [← Option.some.inj hcall]

/-- A system call through its stub: when `isr_handler` puts into the frame what the dispatch makes of it, user
mode goes on with the registers that `Machine.instr` gives it. -/
theorem syscall_interrupted (callee : Callee) (ret : Nat) (t : Machine) (m : Mem)
    {code : HandlerCode Machine} {v₀ : Vectors}
    {stack : Nat → Byte} {r : Machine × IntRegs} (hcode : code.printString = Machine.printString stack)
    (hu : u.Words) (hcs : u.cs &&& 0x3 = 0x3) (hlow : 68 ≤ t.sched.esp0) (hesp0 : t.sched.esp0 < 4294967296)
    (hret : ret < 4294967296) (hstub : stubOf syscallVector = some stub)
    (hcall : isrHandler code (syscallInit code v₀) t (u.frame (t.sched.esp0 - 28) syscallVector 0) = some r)
    (hhandler : ∀ m', Mem.AgreeOff m m' (t.sched.esp0 - 68) t.sched.esp0 →
      readRegs m' (t.sched.esp0 - 60) = u.frame (t.sched.esp0 - 28) syscallVector 0 →
      readRegs (callee .isrHandler m' (t.sched.esp0 - 60)).mem (t.sched.esp0 - 60) = r.2) :
    ∃ m', Mem.AgreeOff m m' (t.sched.esp0 - 68) t.sched.esp0 ∧
      runStub callee ret stub (u.interrupted m t.sched.esp0 syscallVector 0) =
        .user (callee .isrHandler m' (t.sched.esp0 - 60)).mem r.2.user := by
  have hcs' : r.2.cs &&& 0x3 = 0x3 := by
    rw [isrHandler_cs hcode rfl hcall]
    exact hcs
  exact runStub_user callee ret m hstub hu (by decide) hlow hesp0 hret hcs' hhandler

/-- A number that is not registered. -/
theorem syscall_interrupted_unknown : ∃ m',
    runStub (fun _ m fp => ⟨m.set32 (wadd fp 28) 4294967295, 0, 0, 0⟩) 0 (isrNoErrcode syscallVector)
      (enteredMachine.regs.interrupted enteredMachine.mem 0xC0600000 syscallVector 0) =
        .user m' { enteredMachine.regs with eax := 4294967295 } := by
  have hstub : stubOf syscallVector = some (isrNoErrcode syscallVector) := rfl
  have hcall : isrHandler (bareCode fun _ => 0) (syscallInit (bareCode fun _ => 0) ⟨fun _ => 0, fun _ => 0⟩)
      enteredMachine (enteredMachine.regs.frame (0xC0600000 - 28) syscallVector 0) =
      some (enteredMachine.unhandled enteredMachine.regs.eax,
        { enteredMachine.regs.frame (0xC0600000 - 28) syscallVector 0 with eax := 4294967295 }) := rfl
  obtain ⟨m', -, hrun⟩ := syscall_interrupted (fun _ m fp => ⟨m.set32 (wadd fp 28) 4294967295, 0, 0, 0⟩) 0
    enteredMachine enteredMachine.mem rfl enteredMachine_words (by decide) (by decide) (by decide)
      (by decide) hstub hcall
    (fun m' _ hframe => (readRegs_setEax m' (by decide) (by decide)).trans (by rw [hframe]; rfl))
  exact ⟨_, hrun⟩

/-- An interrupt in kernel mode whose handler leaves the frame alone goes unnoticed. -/
theorem kernel_interrupted (callee : Callee) (ret : Nat) (hstub : stubOf v = some stub) (hc : c.Ready fp)
    (heip : eip < 4294967296) (hcs : cs < 4294967296) (hkernel : cs &&& 0x3 ≠ 0x3)
      (herr : errCode < 4294967296)
    (hret : ret < 4294967296)
    (hkept : ∀ m', (readRegs m' fp).cs &&& 0x3 ≠ 0x3 →
      readRegs (callee (targetOf v) m' fp).mem fp = readRegs m' fp) :
    ∃ m', Mem.AgreeOff c.stack.mem m' (fp - 8) (fp + 52) ∧
      runStub callee ret stub (c.interrupted eip cs v errCode) =
        .kernel { c with stack := ⟨(callee (targetOf v) m' fp).mem, c.stack.esp⟩ } eip cs := by
  refine ⟨c.callMem eip cs v errCode fp ret, callMem_agree hc eip cs v errCode ret, ?_⟩
  have hframe := readRegs_callMem hc heip hcs (stubOf_lt hstub) herr hret
  have hhigh := hc.high
  rw [runStub_interrupted callee ret eip cs errCode hstub hc, hkept _ (by rw [hframe]; exact hkernel), hframe,
    IntRegs.resumed, if_neg hkernel, wadd_of_lt (by omega), hc.esp]

/-- The timer in kernel code. -/
theorem kernel_interrupted_idle : ∃ m',
    runStub idleCallee 0 (irqStub 32)
        ((⟨⟨fun _ => 0, 0xC0600000⟩, 1, 2, 3, 4, 5, 6, 7, 0x202⟩ : StubCpu).interrupted
        0xC0100000 0x08 32 0) =
      .kernel ⟨⟨m', 0xC0600000⟩, 1, 2, 3, 4, 5, 6, 7, 0x202⟩ 0xC0100000 0x08 := by
  have hready : (⟨⟨fun _ => 0, 0xC0600000⟩, 1, 2, 3, 4, 5, 6, 7, 0x202⟩ : StubCpu).Ready
      (0xC0600000 - 52) := by
    constructor <;> decide
  have hstub : stubOf 32 = some (irqStub 32) := rfl
  obtain ⟨m', -, hrun⟩ := kernel_interrupted idleCallee 0 hstub hready
    (show 0xC0100000 < 4294967296 by decide)
    (show 0x08 < 4294967296 by decide) (by decide) (show 0 < 4294967296 by decide)
      (by decide) (fun _ _ => rfl)
  exact ⟨_, hrun⟩

end InterruptStubs

end BrownieOS.Process
