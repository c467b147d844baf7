import BrownieOS.Lib.Component
import BrownieOS.Lib.Slices
import BrownieOS.Process.Coherence
import BrownieOS.Process.Isolation
import BrownieOS.Process.OwnView

/-!
# Every process has a machine of its own

After `proc_enter` the processor runs instructions of the current process, which store to its
memory or enter the kernel, and the timer takes the processor away between any two of them.
What a process makes of this, its registers, its memory and what it prints, is what it would be
if the process were alone.
-/
namespace BrownieOS.Process

open BrownieOS.Lib BrownieOS.Lib.Word32 BrownieOS.Core BrownieOS.Mm

/-- What an instruction of user mode does: it changes registers, stores bytes or is `int 0x80`,
or it reads where nothing is open to it. -/
inductive UserAction
  | go (regs : UserRegs)
  | store (regs : UserRegs) (stores : List (Nat × Byte))
  | syscall (regs : UserRegs)
  | fault

/-- The processor in user mode, which sees the registers and the memory that is open to it. The
programs leave alone what is not among these registers. -/
abbrev Cpu : Type := UserRegs → View → UserAction

/-- An instruction whose first byte is not in sight is a page fault. -/
def Cpu.Fetches (cpu : Cpu) : Prop := ∀ regs v, v.byte (wadd regs.eip 0) = none → cpu regs v = .fault

/-- Memory, the scheduler, the registers in user mode, and the lines printed: by which process,
and 0 for those of the timer. -/
structure Machine where
  mem : Mem
  sched : Sched
  regs : UserRegs
  console : List (Nat × List Byte)

inductive MachineEvent
  | instr (proc esp : Nat)
  | timer (esp : Nat)

def MachineEvent.isTimer : MachineEvent → Bool
  | .instr _ _ => false
  | .timer _ => true

/-- The process runs an instruction. -/
def MachineEvent.isInstr (q : Nat) : MachineEvent → Bool
  | .instr proc _ => proc == q
  | .timer _ => false

namespace Machine

/-- `current_proc`. -/
def current (t : Machine) : Option Proc :=
  if t.sched.currentProc = 0 then none else some (t.sched.procs t.sched.currentProc)

/-- Lines on the console. -/
def print (t : Machine) (proc : Nat) (lines : List (List Byte)) : Machine :=
  { t with console := t.console ++ lines.map (proc, ·) }

/-- `sys_print_string` as the table calls it. -/
def printString (stack : Nat → Byte) : Handler Machine := fun t regs =>
  let t := t.print t.sched.currentProc [calledLine ((t.current.map Proc.pid).getD 0)]
  (sysPrintString t.mem t.sched.cr3 t.current regs stack).map fun r =>
    (t.print t.sched.currentProc
      (if r.regs.eax = syscallSuccess then [messageLine (bufferBytes r.copy.dest)] else []), r.regs)

/-- What `syscall_dispatch` has to say about a number. -/
def unhandled (num : Nat) (t : Machine) : Machine := t.print t.sched.currentProc [unhandledLine num]

/-- The next instruction. A page fault stops the kernel. -/
def instr (cpu : Cpu) (code : HandlerCode Machine) (v₀ : Vectors) (esp : Nat)
    (t : Machine) : Option Machine :=
  match cpu t.regs (userSight t.mem t.sched.cr3) with
  | .go regs => some { t with regs := regs }
  | .store regs stores =>
    (storeUserAll t.mem t.sched.cr3 stores).map fun m => { t with mem := m, regs := regs }
  | .syscall regs =>
    (isrHandler code (syscallInit code v₀) t (regs.frame esp syscallVector 0)).map fun r =>
      { r.1 with regs := r.2.user }
  | .fault => none

/-- The interrupt of the timer, on vector 32. -/
def timer (esp : Nat) (t : Machine) : Machine :=
  let r := pitHandler t.sched (t.regs.frame esp 32 0)
  { t.print 0 (pitHandlerPrints t.sched (t.regs.frame esp 32 0)) with sched := r.1, regs := r.2.user }

end Machine

def MachineStep (cpu : Cpu) (code : HandlerCode Machine) (v₀ : Vectors) (t : Machine) :
    MachineEvent → Machine → Prop
  | .instr proc esp, t' => proc = t.sched.currentProc ∧ t.instr cpu code v₀ esp = some t'
  | .timer esp, t' => t' = t.timer esp

/-- The handlers of `syscall_init` as they act on the machine. -/
structure KernelCode (code : HandlerCode Machine) (stack : Nat → Byte) : Prop where
  printString : code.printString = Machine.printString stack
  unhandled : code.unhandled = Machine.unhandled

/-- `proc_enter` has been called. `iret_jump_user` works with `eax` and `ecx`, so what is in the
general registers is left open. -/
structure Entered (k : Kernel) (p : Nat) (t : Machine) : Prop where
  mem : t.mem = k.pmm.mem
  sched : ∃ esp0 tick frequency eflags, t.sched = procEnter (k.sched esp0 tick frequency) p eflags
  eip : t.regs.eip = (t.sched.procs p).context.eip
  cs : t.regs.cs = (t.sched.procs p).context.cs
  eflags : t.regs.eflags = (t.sched.procs p).context.eflags
  useresp : t.regs.useresp = (t.sched.procs p).context.useresp
  ss : t.regs.ss = (t.sched.procs p).context.ss
  console : t.console = []

/-- A machine for one process. -/
structure OwnState where
  pid : Nat
  regs : UserRegs
  sight : View
  printed : List (List Byte)

/-- The next instruction on it; `none` is a page fault. -/
def OwnState.next (cpu : Cpu) (o : OwnState) : Option OwnState :=
  match cpu o.regs o.sight with
  | .go regs => some { o with regs := regs }
  | .store regs stores =>
    (o.sight.storeAll stores).map fun sight => { o with regs := regs, sight := sight }
  | .syscall regs =>
    if regs.eax = sysPrintStringNumber then
      let r := printCall o.sight regs.ebx regs.ecx
      some { o with
        regs := { regs with eax := r.1 }
        printed := o.printed ++ calledLine o.pid :: (r.2.map messageLine).toList }
    else
      some { o with
        regs := { regs with eax := 4294967295 }
        printed := o.printed ++ [unhandledLine regs.eax] }
  | .fault => none

/-- The lines of a process, in order. -/
def Machine.printed (q : Nat) (t : Machine) : List (List Byte) :=
  (t.console.filter fun line => line.1 = q).map Prod.snd

/-- What a process has of the machine: the registers, saved or not, the memory and the lines. -/
def Machine.own (q : Nat) (t : Machine) : OwnState where
  pid := (t.sched.procs q).pid
  regs := if q = t.sched.currentProc then t.regs else (t.sched.procs q).context.user
  sight := userSight t.mem (kv2p (t.sched.procs q).pageDirectory)
  printed := t.printed q

/-- The address spaces of the kernel at `proc_enter`, with the memory as it is now. -/
structure MachineInv (image : KernelImage) (first : FrameMap) (k : Kernel) (Held : Nat → Prop) (t : Machine) :
    Prop where
  spaces : UserSpaces image first Closed { k with pmm := { k.pmm with mem := t.mem }, cr3 := t.sched.cr3 } Held
  list : t.sched.procList = k.procList
  fields : ∀ p, { t.sched.procs p with context := (k.procs p).context } = k.procs p
  listed : Listed k t.sched.currentProc
  cr3 : t.sched.cr3 = kv2p (k.procs t.sched.currentProc).pageDirectory

section OwnMachine

variable {image : KernelImage} {first : FrameMap} {k₀ k : Kernel} {t t' : Machine} {Held : Nat → Prop}
  {cpu : Cpu} {code : HandlerCode Machine} {v₀ : Vectors} {stack : Nat → Byte} {p q esp : Nat}
  {u : UserState} {es : List UserEvent} {evs : List MachineEvent}

theorem MachineInv.pid (hi : MachineInv image first k Held t) (q : Nat) :
    (t.sched.procs q).pid = (k.procs q).pid := by
  rw [← hi.fields q]

theorem MachineInv.pageDirectory (hi : MachineInv image first k Held t) (q : Nat) :
    (t.sched.procs q).pageDirectory = (k.procs q).pageDirectory := by
  rw [← hi.fields q]

/-- The kernel's table pointers lead where the hardware's do, for every process of the table. -/
theorem UserSpaces.mirrors (hi : UserSpaces image first Closed k Held) (hp : Listed k p) :
    (k.procs p).pageDirectory ≠ 0 ∧ MirrorsTables k.pmm.mem (k.procs p).pageDirectory := by
  obtain ⟨C, -, hptr, ⟨-, hD, hdir⟩ | rfl⟩ := hi.listed_directory hp
  · have hlow := hD.1
    have hown := hi.spaces.own.directory C hD
    have hpointer : ∀ i < 768, (getDirEntry k.pmm.mem (kp2v (4096 * C)) i).present = true → ∃ T < lowFrames,
        getTable k.pmm.mem (kp2v (4096 * C)) i = kp2v (4096 * T) ∧
          framePaddr (getDirEntry k.pmm.mem (kp2v (4096 * C)) i).frame = 4096 * T := by
      intro i hidx hpresent
      rw [getDirEntry_eq hown.pointer] at hpresent ⊢
      rw [getTable_eq hown.pointer]
      obtain ⟨T, hT, -, htable, hframe⟩ := hown.mirrored i (by omega) trivial hpresent
      exact ⟨T, hT, htable, by rw [framePaddr, hframe, Nat.mul_comm]⟩
    rw [hdir]
    refine ⟨kp2v_low_ne_zero (by omega), fun i hidx hpresent => ?_, fun i hidx hpresent => ?_⟩
    · obtain ⟨T, hT, htable, -⟩ := hpointer i hidx hpresent
      rw [htable]
      exact kp2v_low_ne_zero hT
    · obtain ⟨T, hT, htable, hframe⟩ := hpointer i hidx hpresent
      rw [htable, hframe, kv2p_kp2v_frame hT]
  · have habsent : ∀ i < 768, (getDirEntry k.pmm.mem (k.procs p).pageDirectory i).present = true → False := by
      intro i hidx hpresent
      rw [getDirEntry_eq hptr, hi.pages.kernel i hidx] at hpresent
      cases hpresent
    refine ⟨fun hz => ?_, fun i hidx hp => (habsent i hidx hp).elim, fun i hidx hp =>
      (habsent i hidx hp).elim⟩
    obtain ⟨hlow, -, -, -⟩ := image.frames_low (i := 768) (by decide) (by decide)
    have hnull : kv2p 0 = 1073741824 := rfl
    rw [hz, hnull] at hptr
    omega

/-- The kernel's check answers for user mode's own view, for every process of the table. -/
theorem UserSpaces.accessible (hi : UserSpaces image first Closed k Held) (hp : Listed k p) {a : Nat}
    (ha : a < 4294967296) : userAddrAccessible k.pmm.mem (some (k.procs p)) a =
      userAccessible k.pmm.mem (kv2p (k.procs p).pageDirectory) a := by
  obtain ⟨hne, hm⟩ := hi.mirrors hp
  rw [Bool.eq_iff_iff, userAddrAccessible_iff hne hm]
  refine ⟨fun h => h.2, fun hu => ⟨?_, hu⟩⟩
  obtain ⟨C, -, hptr, ⟨-, hD, -⟩ | rfl⟩ := hi.listed_directory hp
  · rw [hptr] at hu
    have hidx := (hi.kernelHalf hD).user_idx ha hu
    simp only [pageDirIdx] at hidx
    omega
  · rw [hptr, hi.kernel_unreached ha] at hu
    cases hu

/-! ## One instruction -/

theorem own_current (hq : q = t.sched.currentProc)
    (hdir : t.sched.cr3 = kv2p (t.sched.procs q).pageDirectory) :
    t.own q = ⟨(t.sched.procs q).pid, t.regs, userSight t.mem t.sched.cr3, t.printed q⟩ := by
  rw [Machine.own, if_pos hq, ← hdir]

theorem own_other (hne : q ≠ t.sched.currentProc) : t.own q =
    ⟨(t.sched.procs q).pid, (t.sched.procs q).context.user,
      userSight t.mem (kv2p (t.sched.procs q).pageDirectory), t.printed q⟩ := by
  rw [Machine.own, if_neg hne]

theorem own_regs_other (hne : q ≠ t.sched.currentProc) (regs : UserRegs) :
    Machine.own q { t with regs := regs } = t.own q :=
  (own_other (t := { t with regs := regs }) hne).trans (own_other hne).symm

/-- Two processes never have one directory loaded. -/
theorem UserSpaces.directory_ne (hi : UserSpaces image first Closed k Held) (hp : Listed k p)
    (hq : UserProcess k q) (hne : q ≠ p) :
    kv2p (k.procs p).pageDirectory ≠ kv2p (k.procs q).pageDirectory := by
  obtain ⟨C, -, hptr, hcase⟩ := hi.listed_directory hp
  obtain ⟨D, hD, hdir⟩ := hi.spaces.placed q hq
  have hlow := hD.1
  rw [hptr, hdir, kv2p_kp2v_frame (by omega)]
  intro he
  obtain rfl : C = D := by omega
  rcases hcase with ⟨huser, -, hdir'⟩ | rfl
  · exact hne (hi.distinct q p hq huser (hdir.trans hdir'.symm))
  · obtain ⟨hdirLow, -, -, -⟩ := image.frames_low (i := 768) (by decide) (by decide)
    obtain ⟨hpos, -⟩ := hi.spaces.linked.frames (i := 768) (by decide) (by decide)
    have := hi.spaces.own.place _ hD
    omega

theorem userAddrAccessible_congr {m : Mem} {proc proc' : Proc} (h : proc.pageDirectory = proc'.pageDirectory)
    (a : Nat) : userAddrAccessible m (some proc) a = userAddrAccessible m (some proc') a := by
  simp only [userAddrAccessible, h]

/-! ## Lines -/

@[simp] theorem print_mem (t : Machine) (p : Nat) (lines : List (List Byte)) :
    (t.print p lines).mem = t.mem := rfl

@[simp] theorem print_sched (t : Machine) (p : Nat) (lines : List (List Byte)) :
    (t.print p lines).sched = t.sched := rfl

@[simp] theorem print_current (t : Machine) (p : Nat) (lines : List (List Byte)) :
    (t.print p lines).current = t.current := rfl

theorem print_print (t : Machine) (p : Nat) (lines more : List (List Byte)) :
    (t.print p lines).print p more = t.print p (lines ++ more) := by
  simp [Machine.print]

theorem printed_print (t : Machine) (p q : Nat) (lines : List (List Byte)) :
    (t.print p lines).printed q = t.printed q ++ if p = q then lines else [] := by
  unfold Machine.printed Machine.print
  rw [List.filter_append, List.map_append]
  by_cases he : p = q
  · have hmine : (lines.map (p, ·)).filter (fun line => line.1 = q) = lines.map (p, ·) :=
      List.filter_eq_self.2 (by simp [he])
    rw [if_pos he, hmine, List.map_map, show Prod.snd ∘ (p, ·) =
      (id : List Byte → List Byte) from rfl, List.map_id]
  · simp [he]

theorem own_print_current (hq : q = t.sched.currentProc)
    (hdir : t.sched.cr3 = kv2p (t.sched.procs q).pageDirectory) (lines : List (List Byte)) (regs : UserRegs) :
    Machine.own q { t.print t.sched.currentProc lines with regs := regs } =
      { t.own q with regs := regs, printed := t.printed q ++ lines } := by
  rw [own_current (t := { t.print t.sched.currentProc lines with regs := regs }) hq hdir, own_current hq hdir]
  have hprinted := printed_print t t.sched.currentProc q lines
  rw [if_pos hq.symm] at hprinted
  exact congrArg (OwnState.mk _ _ _) hprinted

theorem own_print_other (hne : q ≠ t.sched.currentProc) (lines : List (List Byte)) (regs : UserRegs) :
    Machine.own q { t.print t.sched.currentProc lines with regs := regs } = t.own q := by
  rw [own_other (t := { t.print t.sched.currentProc lines with regs := regs }) hne, own_other hne]
  have hprinted := printed_print t t.sched.currentProc q lines
  rw [if_neg hne.symm, List.append_nil] at hprinted
  exact congrArg (OwnState.mk _ _ _) hprinted

/-- The system call that the table leads to, for the current process. -/
theorem MachineInv.syscall (hi : MachineInv image first k Held t) (hcode : KernelCode code stack)
    (regs : UserRegs) :
    isrHandler code (syscallInit code v₀) t (regs.frame esp syscallVector 0) =
      if regs.eax = sysPrintStringNumber then
        some (t.print t.sched.currentProc (calledLine (t.sched.procs t.sched.currentProc).pid ::
            ((printCall (userSight t.mem t.sched.cr3) regs.ebx regs.ecx).2.map messageLine).toList),
          { regs with eax := (printCall (userSight t.mem t.sched.cr3) regs.ebx regs.ecx).1 }.frame esp
            syscallVector 0)
      else
        some (t.print t.sched.currentProc [unhandledLine regs.eax],
          { regs with eax := 4294967295 }.frame esp syscallVector 0) := by
  rw [isrHandler_init code v₀ t (regs.frame esp syscallVector 0) rfl]
  by_cases hprint : regs.eax = sysPrintStringNumber
  · have hcurrent : t.current = some (t.sched.procs t.sched.currentProc) := if_neg hi.listed.1
    rw [if_pos hprint, if_pos (show (regs.frame esp syscallVector 0).eax = _ from hprint), hcode.printString,
      Machine.printString, hcurrent]
    have hsight : ∀ a < 4294967296, userAddrAccessible t.mem (some (t.sched.procs t.sched.currentProc)) a =
        userAccessible t.mem t.sched.cr3 a := by
      intro a ha
      rw [userAddrAccessible_congr (hi.pageDirectory _), hi.cr3]
      exact hi.spaces.accessible hi.listed ha
    obtain ⟨r, hr, hregs, htext⟩ := sysPrintString_sight hsight (regs.frame esp syscallVector 0) stack
    have hline : (if r.regs.eax = syscallSuccess then [messageLine (bufferBytes r.copy.dest)] else []) =
        ((printCall (userSight t.mem t.sched.cr3) regs.ebx regs.ecx).2.map messageLine).toList := by
      rw [← show _ = (printCall (userSight t.mem t.sched.cr3) regs.ebx regs.ecx).2.map messageLine from htext]
      split
      · rfl
      · rfl
    simp only [print_current, print_sched, print_mem, hcurrent, Option.map_some, Option.getD_some, hr, hline,
      print_print]
    rw [hregs]
    rfl
  · rw [if_neg hprint, if_neg (show ¬ (regs.frame esp syscallVector 0).eax = _ from hprint), hcode.unhandled]
    rfl

/-- What an instruction of a process does to what it has is what its own machine does. -/
theorem MachineInv.instr_own (hi : MachineInv image first k Held t) (hcode : KernelCode code stack)
    (hq : q = t.sched.currentProc) :
    (t.instr cpu code v₀ esp).map (Machine.own q) = (t.own q).next cpu := by
  have hdir : t.sched.cr3 = kv2p (t.sched.procs q).pageDirectory := by
    rw [hi.pageDirectory, hi.cr3, hq]
  have hown := fun m regs => own_current (t := { t with mem := m, regs := regs }) hq hdir
  have hlines := own_print_current hq hdir
  rw [own_current hq hdir] at hlines ⊢
  rw [Machine.instr, OwnState.next]
  dsimp only at hlines ⊢
  cases cpu t.regs (userSight t.mem t.sched.cr3) with
  | go regs => exact congrArg some (hown t.mem regs)
  | store regs stores =>
    have hstore : (storeUserAll t.mem t.sched.cr3 stores).map (fun m => userSight m t.sched.cr3) =
        (userSight t.mem t.sched.cr3).storeAll stores := hi.spaces.storeAll.1
    dsimp only
    rw [← hstore, Option.map_map, Option.map_map]
    exact congrArg (Option.map · _) (funext fun m => hown m regs)
  | syscall regs =>
    dsimp only
    rw [hi.syscall hcode]
    by_cases hprint : regs.eax = sysPrintStringNumber
    · rw [if_pos hprint, if_pos hprint, Option.map_some, Option.map_some, UserRegs.frame_user, hlines, hq]
    · rw [if_neg hprint, if_neg hprint, Option.map_some, Option.map_some, UserRegs.frame_user, hlines]
  | fault => rfl

/-- An instruction keeps the spaces and the scheduler. -/
theorem MachineInv.instr (hi : MachineInv image first k Held t) (hcode : KernelCode code stack)
    (h : t.instr cpu code v₀ esp = some t') : MachineInv image first k Held t' ∧ t'.sched = t.sched ∧
      ∀ q, UserProcess k q → q ≠ t.sched.currentProc → t'.own q = t.own q := by
  unfold Machine.instr at h
  split at h
  · obtain rfl := Option.some.inj h
    exact ⟨⟨hi.spaces, hi.list, hi.fields, hi.listed, hi.cr3⟩, rfl, fun q _ hne => own_regs_other hne _⟩
  · obtain ⟨m, hstore, rfl⟩ := Option.map_eq_some_iff.1 h
    obtain ⟨hspaces, hviews⟩ := hi.spaces.storeAll.2 m hstore
    refine ⟨⟨hspaces, hi.list, hi.fields, hi.listed, hi.cr3⟩, rfl, fun q hq hne => ?_⟩
    have hload : t.sched.cr3 ≠ kv2p (k.procs q).pageDirectory := by
      rw [hi.cr3]
      exact hi.spaces.directory_ne hi.listed hq hne
    have hsight := hviews q hq hload
    rw [own_other hne, own_other (by exact hne)]
    dsimp only at hsight ⊢
    rw [hi.pageDirectory, hsight]
    rfl
  · rw [hi.syscall hcode] at h
    split at h
    · obtain rfl := Option.some.inj h
      exact ⟨⟨hi.spaces, hi.list, hi.fields, hi.listed, hi.cr3⟩, rfl, fun q _ hne => own_print_other hne _ _⟩
    · obtain rfl := Option.some.inj h
      exact ⟨⟨hi.spaces, hi.list, hi.fields, hi.listed, hi.cr3⟩, rfl, fun q _ hne => own_print_other hne _ _⟩
  · cases h

/-! ## The timer -/

/-- The timer saves and restores what a process has. -/
theorem MachineInv.timer (hi : MachineInv image first k Held t) (esp : Nat) :
    MachineInv image first k Held (t.timer esp) ∧
      ∀ q, UserProcess k q → (t.timer esp).own q = t.own q := by
  have hres := pitHandler_result t.sched (t.regs.frame esp 32 0)
  have hprinted : ∀ q, q ≠ 0 → ∀ s' regs, Machine.printed q { t with
      sched := s', regs := regs, console := (t.print 0 (pitHandlerPrints t.sched
        (t.regs.frame esp 32 0))).console } = t.printed q := by
    intro q hne s' regs
    have hnone := printed_print t 0 q (pitHandlerPrints t.sched (t.regs.frame esp 32 0))
    rwa [if_neg hne.symm, List.append_nil] at hnone
  unfold Machine.timer
  generalize pitHandler t.sched (t.regs.frame esp 32 0) = r at hres
  have hfields : ∀ p, { (t.sched.saveContext (t.regs.frame esp 32 0)).procs p with
      context := (k.procs p).context } = k.procs p := by
    intro p
    by_cases hp : p = t.sched.currentProc
    · rw [hp, saveContext_current]
      exact hi.fields _
    · rw [saveContext_other _ _ hp]
      exact hi.fields p
  cases hres with
  | @stay s' hcur hlist hcr3 hesp0 hprocs =>
    have hfields' : ∀ p, { s'.procs p with context := (k.procs p).context } = k.procs p := by
      rcases hprocs with h | h
      · rw [h]
        exact hi.fields
      · rw [h]
        exact hfields
    refine ⟨⟨?_, hlist.trans hi.list, hfields', ?_, ?_⟩, fun q hq => ?_⟩
    · dsimp only
      rw [hcr3]
      exact hi.spaces
    · dsimp only
      rw [hcur]
      exact hi.listed
    · dsimp only
      rw [hcr3, hcur]
      exact hi.cr3
    · have hdir : (s'.procs q).pageDirectory = (t.sched.procs q).pageDirectory := by
        rw [hi.pageDirectory, ← hfields' q]
      have hpid : (s'.procs q).pid = (t.sched.procs q).pid := by
        rw [hi.pid, ← hfields' q]
      have hcontext : q ≠ t.sched.currentProc → (s'.procs q).context = (t.sched.procs q).context := by
        intro hne
        rcases hprocs with h | h
        · rw [h]
        · rw [h, saveContext_other _ _ hne]
      simp only [Machine.own, hcur, hdir, hpid, hprinted q hq.1, UserRegs.frame_user, print_mem]
      by_cases he : q = t.sched.currentProc
      · rw [if_pos he, if_pos he]
      · rw [if_neg he, if_neg he, hcontext he]
  | @switch s' next hrun hcur hlist hcr3 hesp0 hprocs =>
    have hfields' : ∀ p, { s'.procs p with context := (k.procs p).context } = k.procs p := by
      rw [hprocs]
      exact hfields
    have hnext : Listed k next := by
      obtain ⟨i, hlt, hslot⟩ := hrun.listed
      exact ⟨hrun.nonNull, i, hlt, by rw [← hi.list]; exact hslot⟩
    have hload : s'.cr3 = kv2p (k.procs next).pageDirectory := by
      rw [hcr3, hi.pageDirectory]
    refine ⟨⟨?_, hlist.trans hi.list, hfields', ?_, ?_⟩, fun q hq => ?_⟩
    · obtain ⟨C, hC, hptr, -⟩ := hi.spaces.listed_directory (p := next) hnext
      dsimp only at hptr ⊢
      rw [hload, hptr]
      exact hi.spaces.load hC id
    · dsimp only
      rw [hcur]
      exact hnext
    · dsimp only
      rw [hload, hcur]
    · have hdir : (s'.procs q).pageDirectory = (t.sched.procs q).pageDirectory := by
        rw [hi.pageDirectory, ← hfields' q]
      have hpid : (s'.procs q).pid = (t.sched.procs q).pid := by
        rw [hi.pid, ← hfields' q]
      simp only [Machine.own, hcur, hdir, hpid, hprinted q hq.1, procContextToRegs_user, print_mem]
      by_cases he : q = next
      · rw [if_pos he, he, if_neg hrun.other]
      · rw [if_neg he, hprocs]
        by_cases he' : q = t.sched.currentProc
        · rw [if_pos he', he', saveContext_current]
          rfl
        · rw [if_neg he', saveContext_other _ _ he']

/-! ## Runs -/

/-- A process is a component of the machine. -/
theorem machine_component (hcode : KernelCode code stack) (hq : UserProcess k q) :
    Component (MachineStep cpu code v₀) (MachineInv image first k Held) (MachineEvent.isInstr q)
      (Machine.own q) (OwnState.next cpu) := by
  constructor
  · intro t e t' hi h
    cases e with
    | instr proc esp => exact (hi.instr hcode h.2).1
    | timer esp =>
      obtain rfl := h
      exact (hi.timer esp).1
  · intro t e t' hi h hmine
    cases e with
    | instr proc esp =>
      obtain ⟨rfl, hinstr⟩ := h
      have hsquare : (t.instr cpu code v₀ esp).map (Machine.own q) = (t.own q).next cpu :=
        hi.instr_own hcode (beq_iff_eq.1 hmine).symm
      rw [← hsquare, hinstr, Option.map_some]
    | timer esp => cases hmine
  · intro t e t' hi h hother
    cases e with
    | instr proc esp =>
      obtain ⟨rfl, hinstr⟩ := h
      exact (hi.instr hcode hinstr).2.2 q hq fun he => by
        rw [he, MachineEvent.isInstr, beq_self_eq_true] at hother
        cases hother
    | timer esp =>
      obtain rfl := h
      exact (hi.timer esp).2 q hq

theorem Entered.inv (h : Entered k p t) (hi : UserSpaces image first Closed k Held) (hp : UserProcess k p) :
    MachineInv image first k Held t := by
  obtain ⟨esp0, tick, frequency, eflags, hsched⟩ := h.sched
  obtain ⟨hne, i, -, hlt, hslot⟩ := hp
  have hlisted : Listed k p := ⟨hne, i, hlt, hslot⟩
  obtain ⟨C, hC, hptr, -⟩ := hi.listed_directory hlisted
  constructor
  · rw [h.mem, hsched]
    have hcr3 : (procEnter (k.sched esp0 tick frequency) p eflags).cr3 = 4096 * C := hptr
    rw [hcr3]
    exact hi.load hC id
  · rw [hsched]
    rfl
  · intro q
    rw [hsched]
    by_cases hq : q = p
    · rw [hq, procEnter_self]
      rfl
    · rw [procEnter_other hq]
      rfl
  · rw [hsched]
    exact hlisted
  · rw [hsched]
    rfl

/-- An instruction that is run has been fetched, so it is a user process's. -/
theorem MachineInv.instr_process (hi : MachineInv image first k Held t) (hfetch : cpu.Fetches)
    (h : t.instr cpu code v₀ esp = some t') : UserProcess k t.sched.currentProc := by
  obtain ⟨C, -, hptr, ⟨huser, -⟩ | rfl⟩ := hi.spaces.listed_directory (p := t.sched.currentProc) hi.listed
  · exact huser
  · dsimp only at hptr
    have hdark : userSight t.mem t.sched.cr3 (wadd t.regs.eip 0) = none := by
      rw [hi.cr3, hptr]
      refine userSight_none fun hopen => ?_
      have hclosed := hi.spaces.kernel_unreached hopen.1
      dsimp only at hclosed
      rw [hclosed] at hopen
      exact Bool.false_ne_true hopen.2
    have hfault : cpu t.regs (userSight t.mem t.sched.cr3) = .fault :=
      hfetch t.regs _ (by rw [View.byte, hdark, Option.map_none])
    rw [Machine.instr, hfault] at h
    cases h

/-- What an instruction puts on the console is the current process's. -/
theorem MachineInv.instr_console (hi : MachineInv image first k Held t) (hcode : KernelCode code stack)
    (h : t.instr cpu code v₀ esp = some t') :
    ∃ lines : List (List Byte), t'.console = t.console ++ lines.map (t.sched.currentProc, ·) := by
  unfold Machine.instr at h
  split at h
  · obtain rfl := Option.some.inj h
    exact ⟨[], by simp⟩
  · obtain ⟨m, -, rfl⟩ := Option.map_eq_some_iff.1 h
    exact ⟨[], by simp⟩
  · rw [hi.syscall hcode] at h
    split at h
    · obtain rfl := Option.some.inj h
      exact ⟨_, rfl⟩
    · obtain rfl := Option.some.inj h
      exact ⟨_, rfl⟩
  · cases h

/-- Every line on the console is a user process's, or the timer's. -/
theorem machine_console (hcode : KernelCode code stack) (hfetch : cpu.Fetches)
    (hi : MachineInv image first k Held t) (hempty : t.console = [])
    (hmachine : Run (MachineStep cpu code v₀) t evs t') :
    ∀ line ∈ t'.console, line.1 = 0 ∧ TimerLine line.2 ∨ UserProcess k line.1 := by
  refine (hmachine.invariant (I := fun t => MachineInv image first k Held t ∧
    ∀ line ∈ t.console, line.1 = 0 ∧ TimerLine line.2 ∨ UserProcess k line.1) ?_
    ⟨hi, fun line hline => by rw [hempty] at hline; cases hline⟩).2
  intro t e t' ⟨hi, hlines⟩ h
  cases e with
  | timer esp =>
    obtain rfl := h
    refine ⟨(hi.timer esp).1, fun line hline => ?_⟩
    rcases List.mem_append.1 hline with hold | hnew
    · exact hlines line hold
    · obtain ⟨text, htext, rfl⟩ := List.mem_map.1 hnew
      exact Or.inl ⟨rfl, mem_pitHandlerPrints htext⟩
  | instr proc esp =>
    refine ⟨(hi.instr hcode h.2).1, fun line hline => ?_⟩
    obtain ⟨lines, hconsole⟩ := hi.instr_console hcode h.2
    rw [hconsole] at hline
    rcases List.mem_append.1 hline with hold | hnew
    · exact hlines line hold
    · obtain ⟨text, -, rfl⟩ := List.mem_map.1 hnew
      exact Or.inr (hi.instr_process hfetch h.2)

/-- From `proc_enter` on, in every run of the machine, whatever programs the processes have and
whenever the timer comes: what a process has is what its own machine makes of its start in as many
instructions as it was given, and its next instruction, when it runs, is that of its machine. -/
theorem machine_of_its_own (hb : Boot image k₀ k) (hl₀ : Loaded image k₀.pmm) (hl : image.Linked)
    (hcr3 : k₀.cr3 = image.dirPaddr) (hrun : Run (UserStep image) ⟨k, fun _ => False⟩ es u)
    (hok : u.kernel.pmm.failed = false) (hcode : KernelCode code stack)
    (hp : UserProcess u.kernel p) (henter : Entered u.kernel p t)
    (hmachine : Run (MachineStep cpu code v₀) t evs t') (hq : UserProcess u.kernel q) :
    stepsOf (OwnState.next cpu) (evs.countP (MachineEvent.isInstr q)) (t.own q) = some (t'.own q) ∧
      (q = t'.sched.currentProc → ∀ esp,
        (t'.instr cpu code v₀ esp).map (Machine.own q) = (t'.own q).next cpu) := by
  have hspaces := (UserInv.run hb hl₀ hl hcr3 hrun).2 hok
  obtain ⟨hinv, hsteps⟩ := (machine_component hcode hq).run (henter.inv hspaces hp) hmachine
  exact ⟨hsteps, fun hcur esp => hinv.instr_own hcode hcur⟩

/-- A processor that only counts. -/
def countingCpu : Cpu := fun regs _ => .go { regs with eax := wadd regs.eax 1 }

/-- A kernel with the handlers of `syscall_init` alone. -/
def bareCode (stack : Nat → Byte) : HandlerCode Machine :=
  ⟨0xC0100000, 0xC0100100, by decide, Machine.printString stack, Machine.unhandled, fun _ _ _ => none⟩

theorem bareCode_kernelCode (stack : Nat → Byte) : KernelCode (bareCode stack) stack := ⟨rfl, rfl⟩

/-- Two processes, the first entered, with turns of two ticks. -/
theorem two_entered : ∃ k k₂ t, Boot sampleImage pagedKernel k ∧
    Run (UserStep sampleImage)
      ⟨k, fun _ => False⟩ [.create sampleCall 0xC04000A0, .create sampleCall 0xC0402150]
      ⟨k₂, fun _ => False⟩ ∧
    k₂.pmm.failed = false ∧ UserProcess k₂ 0xC04000A0 ∧ Entered k₂ 0xC04000A0 t ∧ t.sched.tick = 0 ∧
    t.sched.pitCurFrequency = 1 := by
  obtain ⟨k, k₁, k₂, hboot, hstep, hstep', hproc, hok⟩ := two_user_processes
  have hproc' : UserProcess k₂ 0xC04000A0 := by
    obtain ⟨hi, hspaces⟩ := UserInv.run hboot pagedKernel_loaded sampleImage_linked rfl (.single hstep)
    have hok₁ := (hstep'.grows hi).not_failed hok
    exact ((hspaces hok₁).step_view hstep' hok hproc trivial).process
  let s := procEnter (k₂.sched 0 0 1) 0xC04000A0 0
  let t : Machine := ⟨k₂.pmm.mem, s, (s.procs 0xC04000A0).context.user, []⟩
  have henter : Entered k₂ 0xC04000A0 t := ⟨rfl, ⟨0, 0, 1, 0, rfl⟩, rfl, rfl, rfl, rfl, rfl, rfl⟩
  exact ⟨k, k₂, t, hboot, (Run.single hstep).snoc hstep', hok, hproc', henter, rfl, rfl⟩

/-- A machine that always runs its next instruction may be run with a tick after each. -/
theorem lively_run {I : Machine → Prop}
    (hinstr : ∀ t, I t → ∃ t', t.instr cpu code v₀ 0 = some t' ∧ I t') (htimer : ∀ t, I t → I (t.timer 0))
    (ht : I t) (n : Nat) : ∃ evs t', Run (MachineStep cpu code v₀) t evs t' ∧
      Lively MachineEvent.isTimer evs ∧ evs.countP MachineEvent.isTimer = n := by
  suffices hrun : ∃ evs t', Run (MachineStep cpu code v₀) t evs t' ∧ Lively MachineEvent.isTimer evs ∧
      evs.countP MachineEvent.isTimer = n ∧ I t' by
    obtain ⟨evs, t', hrun, hlively, hcount, -⟩ := hrun
    exact ⟨evs, t', hrun, hlively, hcount⟩
  induction n with
  | zero => exact ⟨[], t, .nil t, .nil, rfl, ht⟩
  | succ n ih =>
    obtain ⟨evs, t', hrun, hlively, hcount, ht'⟩ := ih
    obtain ⟨t₁, hnext, ht₁⟩ := hinstr t' ht'
    have hmore : Run (MachineStep cpu code v₀) t' [.instr t'.sched.currentProc 0, .timer 0] (t₁.timer 0) :=
      .cons ⟨rfl, hnext⟩ (.single rfl)
    refine ⟨_, _, hrun.append hmore, hlively.step_tick rfl, ?_, htimer t₁ ht₁⟩
    rw [List.countP_append, hcount]
    rfl

theorem countingCpu_runs (code : HandlerCode Machine) (v₀ : Vectors) (t : Machine) (n : Nat) :
    ∃ evs t', Run (MachineStep countingCpu code v₀) t evs t' ∧ Lively MachineEvent.isTimer evs ∧
      evs.countP MachineEvent.isTimer = n :=
  lively_run (I := fun _ => True) (fun _ _ => ⟨_, rfl, trivial⟩) (fun _ _ => trivial) trivial n

/-- Two processes; the timer comes twice, after an instruction each time. -/
theorem machine_of_its_own_two : ∃ k t evs t', UserProcess k 0xC04000A0 ∧ Entered k 0xC04000A0 t ∧
    Run (MachineStep countingCpu (bareCode fun _ => 0) ⟨fun _ => 0, fun _ => 0⟩) t evs t' ∧
    evs.countP MachineEvent.isTimer = 2 ∧
    stepsOf (OwnState.next countingCpu) (evs.countP (MachineEvent.isInstr 0xC04000A0)) (t.own 0xC04000A0) =
      some (t'.own 0xC04000A0) := by
  obtain ⟨k, k₂, t, hboot, hrun, hok, hproc, henter, -⟩ := two_entered
  obtain ⟨evs, t', hmachine, -, hcount⟩ :=
    countingCpu_runs (bareCode fun _ => 0) ⟨fun _ => 0, fun _ => 0⟩ t 2
  exact ⟨k₂, t, evs, t', hproc, henter, hmachine, hcount,
    (machine_of_its_own hboot pagedKernel_loaded sampleImage_linked rfl
    hrun hok (bareCode_kernelCode _) hproc henter hmachine hproc).1⟩

end OwnMachine

end BrownieOS.Process
