import BrownieOS.LibC.Printed
import BrownieOS.Process.Scheduler

/-!
# What the kernel prints

The lines of `sys_print_string` and `syscall_dispatch`, and those of the timer and the scheduler,
each as `printf` gives it to the terminal.
-/
namespace BrownieOS.Process

open BrownieOS.Lib BrownieOS.LibC

/-- `sys_print_string` names its caller, whatever it is called with. -/
def calledLine (pid : Nat) : List Byte :=
  printf "printf syscall called from process %u\n" [.int (BitVec.ofNat 32 pid)]

/-- `printf("%s\n", buffer)` of `sys_print_string`. -/
def messageLine (buffer : List Byte) : List Byte := printf "%s\n" [.string (.upto buffer)]

/-- The line of `syscall_dispatch` about a number that has no handler. -/
def unhandledLine (num : Nat) : List Byte :=
  printf "syscall: unhandled number %u\n" [.int (BitVec.ofNat 32 num)]

def tickLine (tick : Nat) : List Byte :=
  printf "PIT: scheduling tick %llu\n" [.longLong (BitVec.ofNat 64 tick)]

def switchLine (pid : Nat) : List Byte :=
  printf "Scheduler: switching to process #%u\n" [.int (BitVec.ofNat 32 pid)]

/-- What `scheduler_switch_process` prints; the line comes once `current_proc` is set. -/
def schedulerSwitchProcessPrints (s : Sched) (next : Nat) : List (List Byte) :=
  if next = 0 ∨ next = s.currentProc then [] else [switchLine (s.procs next).pid]

def schedulerSwitchNextPrints (s : Sched) (regs : IntRegs) : List (List Byte) :=
  if regs.cs &&& 0x3 ≠ 0x3 then []
  else
    let s := s.saveContext regs
    schedulerSwitchProcessPrints s (pickNextProc s s.currentProc)

def pitHandlerPrints (s : Sched) (regs : IntRegs) : List (List Byte) :=
  let s := { s with tick := (s.tick + 1) % 2 ^ 64 }
  let slice := s.pitCurFrequency * schedSliceSeconds % 2 ^ 64
  if slice ≠ 0 ∧ regs.cs &&& 3 = 3 ∧ s.tick % slice = 0 then
    tickLine s.tick :: schedulerSwitchNextPrints s regs
  else []

/-- A line of the timer or of the scheduler. -/
def TimerLine (line : List Byte) : Prop := ∃ n, line = tickLine n ∨ line = switchLine n

section Console

variable {s : Sched} {regs : IntRegs} {line text : List Byte}

/-- What is behind the NUL is not printed. -/
theorem messageLine_takeWhile (buffer : List Byte) :
    messageLine (buffer.takeWhile (· ≠ 0)) = messageLine buffer := by
  have hupto : CString.upto (buffer.takeWhile (· ≠ 0)) = CString.upto buffer := by
    simp only [CString.upto, List.takeWhile_idem]
  rw [messageLine, hupto, messageLine]

/-- A text without NUL is printed with the line's end, or up to its first byte 0xFF. -/
theorem messageLine_eq (hnul : 0 ∉ text) (hlen : text.length < intMax) : messageLine text =
    if 0xFF ∈ text then uptoEof text else text ++ [ch '\n'] := by
  have hchars := CString.upto_chars hnul
  have hshort : (CString.upto text).chars.length < intMax := by
    rw [hchars]
    exact hlen
  have hline := printf_line hshort
  rw [hchars] at hline
  exact hline

theorem mem_schedulerSwitchNextPrints (h : line ∈ schedulerSwitchNextPrints s regs) :
    ∃ pid, line = switchLine pid := by
  unfold schedulerSwitchNextPrints schedulerSwitchProcessPrints at h
  split at h
  · cases h
  · dsimp only at h
    split at h
    · cases h
    · exact ⟨_, List.mem_singleton.1 h⟩

theorem mem_pitHandlerPrints (h : line ∈ pitHandlerPrints s regs) : TimerLine line := by
  unfold pitHandlerPrints at h
  dsimp only at h
  split at h
  · rcases List.mem_cons.1 h with rfl | hmore
    · exact ⟨_, Or.inl rfl⟩
    · obtain ⟨pid, hpid⟩ := mem_schedulerSwitchNextPrints hmore
      exact ⟨pid, Or.inr hpid⟩
  · cases h

example : tickLine 120 = "PIT: scheduling tick 120\n".toList.map ch := by decide +kernel

end Console

end BrownieOS.Process
