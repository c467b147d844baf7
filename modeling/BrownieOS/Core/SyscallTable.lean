import BrownieOS.Core.Syscall
import BrownieOS.Lib.Run

/-!
# The handler tables of `core/isr.c` and `core/syscall.c`

A table holds the addresses of functions, 0 for NULL. What a handler does is a function of the
frame and of a state, and `none` is one that does not return. What the message about an unknown
number does to the state is a function too.
-/
namespace BrownieOS.Core

open BrownieOS.Lib BrownieOS.Lib.Word32 BrownieOS.Mm BrownieOS.Process

abbrev syscallVector : Nat := 0x80
abbrev syscallMax : Nat := 256
/-- `SYS_PRINT_STRING`. -/
abbrev sysPrintStringNumber : Nat := 1

/-- `isr_t` and `syscall_handler_t`: the state and the frame that a handler leaves. -/
abbrev Handler (σ : Type) : Type := σ → IntRegs → Option (σ × IntRegs)

/-- `interrupt_handlers` and `syscall_table`. -/
structure Vectors where
  interruptHandlers : Nat → Nat
  syscallTable : Nat → Nat

/-- The functions by their addresses, and the message of `syscall_dispatch`. -/
structure HandlerCode (σ : Type) where
  syscallDispatch : Nat
  sysPrintString : Nat
  nonNull : syscallDispatch ≠ 0 ∧ sysPrintString ≠ 0
  printString : Handler σ
  unhandled : Nat → σ → σ
  other : Nat → Handler σ

/-- `isr_set_handler`; the vector is a `uint8_t`. -/
def Vectors.isrSetHandler (v : Vectors) (intNo handler : Nat) : Vectors :=
  { v with interruptHandlers := Function.update v.interruptHandlers (intNo % 256) handler }

/-- `syscall_register`: the tables after the call, and what it returns. -/
def Vectors.syscallRegister (v : Vectors) (num handler : Nat) : Vectors × Int :=
  if num ≥ syscallMax ∨ handler = 0 then (v, -1)
  else if v.syscallTable num ≠ 0 then (v, -2)
  else ({ v with syscallTable := Function.update v.syscallTable num handler }, 0)

section Handlers

variable {σ : Type} (code : HandlerCode σ) (v : Vectors)

def syscallInit : Vectors :=
  let v := { v with syscallTable := fun n => if n < syscallMax then 0 else v.syscallTable n }
  let v := v.isrSetHandler syscallVector code.syscallDispatch
  (v.syscallRegister sysPrintStringNumber code.sysPrintString).1

/-- A call of the system call at an address. -/
def callSyscall (addr : Nat) : Handler σ :=
  if addr = code.sysPrintString then code.printString else code.other addr

def syscallDispatch : Handler σ := fun s regs =>
  if regs.eax < syscallMax ∧ v.syscallTable regs.eax ≠ 0 then
    callSyscall code (v.syscallTable regs.eax) s regs
  else some (code.unhandled regs.eax s, { regs with eax := 4294967295 })

/-- A call of the interrupt handler at an address. -/
def callInterrupt (addr : Nat) : Handler σ :=
  if addr = code.syscallDispatch then syscallDispatch code v else code.other addr

def isrHandler : Handler σ := fun s regs =>
  if v.interruptHandlers regs.intNo ≠ 0 then callInterrupt code v (v.interruptHandlers regs.intNo) s regs
  else some (s, regs)

end Handlers

/-! ## Registrations -/

/-- The calls of `syscall_register`, in order: the tables and all results. -/
def Vectors.registerAll (v : Vectors) : List (Nat × Nat) → Vectors × List Int
  | [] => (v, [])
  | c :: cs =>
    let call := v.syscallRegister c.1 c.2
    let rest := call.1.registerAll cs
    (rest.1, call.2 :: rest.2)

/-- A call that names a number of the table, and a function. -/
def Registers (c : Nat × Nat) (n : Nat) : Prop := c.1 = n ∧ c.2 ≠ 0

instance (c : Nat × Nat) (n : Nat) : Decidable (Registers c n) := inferInstanceAs (Decidable (_ ∧ _))

/-- The function of the first call for the number, 0 if there is none. -/
def firstHandler (calls : List (Nat × Nat)) (n : Nat) : Nat :=
  ((calls.find? fun c => decide (Registers c n)).map Prod.snd).getD 0

section Registrations

variable {σ : Type} {code : HandlerCode σ} {v : Vectors} {num handler n : Nat} {c : Nat × Nat}
  {calls : List (Nat × Nat)}

theorem syscallRegister_table (v : Vectors) (num handler : Nat) (hn : n < syscallMax) :
    (v.syscallRegister num handler).1.syscallTable n =
      if v.syscallTable n ≠ 0 then v.syscallTable n
        else if Registers (num, handler) n then handler else 0 := by
  unfold Vectors.syscallRegister
  by_cases hno : num ≥ syscallMax ∨ handler = 0
  · have hreg : ¬ Registers (num, handler) n := by
      rintro ⟨he, hne⟩
      dsimp only at he hne
      omega
    rw [if_pos hno, if_neg hreg]
    simp
  · rw [if_neg hno]
    by_cases he : num = n
    · subst he
      have hreg : Registers (num, handler) num := ⟨rfl, fun h => hno (Or.inr h)⟩
      by_cases htaken : v.syscallTable num ≠ 0
      · rw [if_pos htaken, if_pos htaken]
      · rw [if_neg htaken, if_neg htaken, if_pos hreg]
        exact Function.update_self _ _ _
    · have hreg : ¬ Registers (num, handler) n := fun h => he h.1
      rw [if_neg hreg]
      split
      · simp
      · simp [Function.update_of_ne (Ne.symm he)]

theorem firstHandler_cons (c : Nat × Nat) (calls : List (Nat × Nat)) (n : Nat) :
    firstHandler (c :: calls) n = if Registers c n then c.2 else firstHandler calls n := by
  unfold firstHandler
  by_cases h : Registers c n
  · rw [List.find?_cons_of_pos (by simpa using h), if_pos h]
    rfl
  · rw [List.find?_cons_of_neg (by simpa using h), if_neg h]

/-- What is taken stays, and what is free goes to the first that asks for it. -/
theorem registerAll_table (v : Vectors) (calls : List (Nat × Nat)) (hn : n < syscallMax) :
    (v.registerAll calls).1.syscallTable n =
      if v.syscallTable n ≠ 0 then v.syscallTable n else firstHandler calls n := by
  induction calls generalizing v with
  | nil =>
    show v.syscallTable n = if v.syscallTable n ≠ 0 then v.syscallTable n else 0
    by_cases h : v.syscallTable n = 0
    · rw [if_neg (not_not.2 h), h]
    · rw [if_pos h]
  | cons c cs ih =>
    have hc := syscallRegister_table v c.1 c.2 hn
    rw [Vectors.registerAll, ih, hc, firstHandler_cons]
    by_cases htaken : v.syscallTable n ≠ 0
    · simp only [if_pos htaken]
    · simp only [if_neg htaken]
      by_cases hreg : Registers c n
      · simp only [if_pos hreg, if_pos hreg.2]
      · simp [hreg]

end Registrations

/-! ## A system call, whatever has been registered -/

inductive VectorCall
  | setHandler (intNo handler : Nat)
  | register (num handler : Nat)

def Vectors.after (v : Vectors) : VectorCall → Vectors
  | .setHandler intNo handler => v.isrSetHandler intNo handler
  | .register num handler => (v.syscallRegister num handler).1

def VectorCall.registration : VectorCall → Option (Nat × Nat)
  | .setHandler _ _ => none
  | .register num handler => some (num, handler)

/-- The call does not replace the handler of system calls. -/
def VectorCall.KeepsVector : VectorCall → Prop
  | .setHandler intNo _ => intNo % 256 ≠ syscallVector
  | .register _ _ => True

section Dispatch

variable {σ : Type} {code : HandlerCode σ} {v w : Vectors} {n : Nat} {calls : List VectorCall}

theorem syscallRegister_handlers (v : Vectors) (num handler : Nat) :
    (v.syscallRegister num handler).1.interruptHandlers = v.interruptHandlers := by
  unfold Vectors.syscallRegister
  split
  · rfl
  · split
    · rfl
    · rfl

/-- The register of a number is decided by the table alone. -/
theorem registerAll_congr (hvw : v.syscallTable = w.syscallTable) (cs : List (Nat × Nat))
    (hn : n < syscallMax) : (v.registerAll cs).1.syscallTable n = (w.registerAll cs).1.syscallTable n := by
  rw [registerAll_table v cs hn, registerAll_table w cs hn, hvw]

theorem after_table (v : Vectors) (calls : List VectorCall) (hn : n < syscallMax) :
    (calls.foldl Vectors.after v).syscallTable n =
      if v.syscallTable n ≠ 0 then v.syscallTable n
      else firstHandler (calls.filterMap VectorCall.registration) n := by
  rw [← registerAll_table v _ hn]
  induction calls generalizing v with
  | nil => rfl
  | cons c cs ih =>
    rw [List.foldl_cons, ih]
    cases c with
    | setHandler intNo handler =>
      exact registerAll_congr (v := v.isrSetHandler intNo handler) (w := v) rfl
        (cs.filterMap VectorCall.registration) hn
    | register num handler => rfl

theorem after_vector (hkeep : ∀ c ∈ calls, VectorCall.KeepsVector c) :
    (calls.foldl Vectors.after v).interruptHandlers syscallVector = v.interruptHandlers syscallVector := by
  induction calls generalizing v with
  | nil => rfl
  | cons c cs ih =>
    rw [List.foldl_cons, ih fun c hc => hkeep c (List.mem_cons_of_mem _ hc)]
    have hc := hkeep c List.mem_cons_self
    cases c with
    | setHandler intNo handler => exact Function.update_of_ne (Ne.symm hc) _ _
    | register num handler => exact congrFun (syscallRegister_handlers v num handler) _

theorem syscallInit_table (code : HandlerCode σ) (v : Vectors) (hn : n < syscallMax) :
    (syscallInit code v).syscallTable n = if n = sysPrintStringNumber then code.sysPrintString else 0 := by
  have hreg : Registers (sysPrintStringNumber, code.sysPrintString) n ↔ n = sysPrintStringNumber :=
    ⟨fun h => h.1.symm, fun h => ⟨h.symm, code.nonNull.2⟩⟩
  unfold syscallInit
  rw [syscallRegister_table _ _ _ hn]
  simp [Vectors.isrSetHandler, hn, hreg]

theorem syscallInit_vector (code : HandlerCode σ) (v : Vectors) :
    (syscallInit code v).interruptHandlers syscallVector = code.syscallDispatch := by
  unfold syscallInit
  rw [syscallRegister_handlers]
  exact Function.update_self syscallVector code.syscallDispatch v.interruptHandlers

/-- `int 0x80`, with the tables as `syscall_init` has set them. -/
theorem isrHandler_syscall (hvector : v.interruptHandlers syscallVector = code.syscallDispatch)
    (hprint : v.syscallTable sysPrintStringNumber = code.sysPrintString) (s : σ) (regs : IntRegs)
    (hvec : regs.intNo = syscallVector) :
    isrHandler code v s regs =
      if regs.eax = sysPrintStringNumber then code.printString s regs
      else if regs.eax < syscallMax ∧ v.syscallTable regs.eax ≠ 0 then
        callSyscall code (v.syscallTable regs.eax) s regs
      else some (code.unhandled regs.eax s, { regs with eax := 4294967295 }) := by
  have hhandler : v.interruptHandlers regs.intNo = code.syscallDispatch := by
    rw [hvec, hvector]
  rw [isrHandler, hhandler, if_pos code.nonNull.1, callInterrupt, if_pos rfl, syscallDispatch]
  by_cases heax : regs.eax = sysPrintStringNumber
  · have hnumber : regs.eax < syscallMax := by
      rw [heax]
      decide
    rw [if_pos heax, if_pos ⟨hnumber, by rw [heax, hprint]; exact code.nonNull.2⟩, heax, hprint, callSyscall,
      if_pos rfl]
  · rw [if_neg heax]

/-- With the function of `syscall_init` alone. -/
theorem isrHandler_init (code : HandlerCode σ) (v₀ : Vectors) (s : σ) (regs : IntRegs)
    (hvec : regs.intNo = syscallVector) :
    isrHandler code (syscallInit code v₀) s regs =
      if regs.eax = sysPrintStringNumber then code.printString s regs
      else some (code.unhandled regs.eax s, { regs with eax := 4294967295 }) := by
  have htable : (syscallInit code v₀).syscallTable sysPrintStringNumber = code.sysPrintString := by
    rw [syscallInit_table code v₀ (by decide), if_pos rfl]
  rw [isrHandler_syscall (syscallInit_vector code v₀) htable s regs hvec]
  by_cases hprint : regs.eax = sysPrintStringNumber
  · rw [if_pos hprint, if_pos hprint]
  · have hunknown : ¬ (regs.eax < syscallMax ∧ (syscallInit code v₀).syscallTable regs.eax ≠ 0) := by
      rintro ⟨hnumber, hregistered⟩
      exact hregistered (by rw [syscallInit_table code v₀ hnumber, if_neg hprint])
    rw [if_neg hprint, if_neg hprint, if_neg hunknown]

/-- After `syscall_init`, and whatever functions are registered later in any order, `int 0x80`
reaches the function that was first registered for the number in `eax`, for number 1
`sys_print_string`; without one the message comes, and of the frame only `eax` is changed, to
-1. -/
theorem syscall_dispatched (code : HandlerCode σ) (v₀ : Vectors) (calls : List VectorCall)
    (hkeep : ∀ c ∈ calls, VectorCall.KeepsVector c) (s : σ) (regs : IntRegs)
    (hvec : regs.intNo = syscallVector) :
    isrHandler code (calls.foldl Vectors.after (syscallInit code v₀)) s regs =
      if regs.eax = sysPrintStringNumber then code.printString s regs
      else if regs.eax < syscallMax ∧ firstHandler (calls.filterMap VectorCall.registration) regs.eax ≠ 0 then
        callSyscall code (firstHandler (calls.filterMap VectorCall.registration) regs.eax) s regs
      else some (code.unhandled regs.eax s, { regs with eax := 4294967295 }) := by
  have hvector : (calls.foldl Vectors.after (syscallInit code v₀)).interruptHandlers syscallVector =
      code.syscallDispatch := by
    rw [after_vector hkeep, syscallInit_vector]
  have htable : (calls.foldl Vectors.after (syscallInit code v₀)).syscallTable sysPrintStringNumber =
      code.sysPrintString := by
    rw [after_table _ _ (by decide), syscallInit_table code v₀ (by decide), if_pos rfl, if_pos code.nonNull.2]
  rw [isrHandler_syscall hvector htable s regs hvec]
  by_cases hprint : regs.eax = sysPrintStringNumber
  · rw [if_pos hprint, if_pos hprint]
  · rw [if_neg hprint, if_neg hprint]
    by_cases hn : regs.eax < syscallMax
    · rw [after_table _ _ hn, syscallInit_table code v₀ hn]
      simp only [if_neg hprint, ne_eq, not_true_eq_false, if_false]
    · rw [if_neg fun h => hn h.1, if_neg fun h => hn h.1]

/-- Of two functions registered for number 2 the first is called. -/
theorem syscall_dispatched_second : ∃ code : HandlerCode Unit,
    isrHandler code ([VectorCall.register 2 0x500, .setHandler 3 0x700, .register 2 0x600].foldl
        Vectors.after (syscallInit code ⟨fun _ => 0, fun _ => 0⟩)) () { printRegs 0 0 with eax := 2 } =
      some ((), { printRegs 0 0 with eax := 0x500 }) :=
  ⟨⟨0x300, 0x400, by decide, fun s regs => some (s, regs), fun _ s => s,
      fun addr s regs => some (s, { regs with eax := addr })⟩,
    syscall_dispatched _ _ _ (by simp [VectorCall.KeepsVector, syscallVector]) ()
      { printRegs 0 0 with eax := 2 } rfl⟩

end Dispatch

end BrownieOS.Core
