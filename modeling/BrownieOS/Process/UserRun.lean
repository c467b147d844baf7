import BrownieOS.Process.MessageReady
import BrownieOS.Process.TimeSlices

/-!
# The program of `make_user_proc_with_message`, run

On a machine of its own the program prints the message with its fourth instruction, behind the
line that names it, and jumps to itself from then on. So does every process made in this way, among
all the others, whenever the timer comes; and once the timer has come often enough, every message
has been printed.
-/
namespace BrownieOS.Process

open BrownieOS.Lib BrownieOS.Lib.Word32 BrownieOS.LibC BrownieOS.Core BrownieOS.Mm

/-- The bytes are in sight from `va` on. -/
def View.Holds (v : View) (va : Nat) (bytes : List Byte) : Prop :=
  ∀ i < bytes.length, v.byte (wadd va i) = some (bytes.getD i 0)

/-- The processor knows the five instructions of the program: `mov` of an immediate into `eax`,
`ebx` and `ecx`, `int 0x80`, and the jump to itself. -/
structure Executes (cpu : Cpu) : Prop where
  movEax : ∀ regs v imm, imm < 4294967296 → View.Holds v regs.eip (0xB8 :: immBytes imm) →
    cpu regs v = .go { regs with eax := imm, eip := wadd regs.eip 5 }
  movEbx : ∀ regs v imm, imm < 4294967296 → View.Holds v regs.eip (0xBB :: immBytes imm) →
    cpu regs v = .go { regs with ebx := imm, eip := wadd regs.eip 5 }
  movEcx : ∀ regs v imm, imm < 4294967296 → View.Holds v regs.eip (0xB9 :: immBytes imm) →
    cpu regs v = .go { regs with ecx := imm, eip := wadd regs.eip 5 }
  int80 : ∀ regs v, View.Holds v regs.eip [0xCD, 0x80] →
    cpu regs v = .syscall { regs with eip := wadd regs.eip 2 }
  jmpSelf : ∀ regs v, View.Holds v regs.eip [0xEB, 0xFE] → cpu regs v = .go regs

/-- The program at `USER_TEST_CODE_VA`, and the message with its NUL at `USER_TEST_DATA_VA`. -/
structure HoldsProgram (v : View) (msg : List Byte) : Prop where
  length : msg.length < 4096
  code : ∀ x < 4096, v.byte (userTestCodeVa + x) = some ((userProgram msg.length).getD x 0x90)
  data : ∀ x < 4096, v.byte (userTestDataVa + x) = some (msg.getD x 0)

/-- The registers after `n` instructions. -/
def programRegs (regs : UserRegs) (len : Nat) : Nat → UserRegs
  | 0 => regs
  | 1 => { regs with eax := sysPrintStringNumber, eip := 0x400005 }
  | 2 => { regs with eax := sysPrintStringNumber, ebx := userTestDataVa, eip := 0x40000A }
  | 3 => { regs with eax := sysPrintStringNumber, ebx := userTestDataVa, ecx := len, eip := 0x40000F }
  | _ => { regs with
    eax := if len = 0 then syscallEinval else syscallSuccess
    ebx := userTestDataVa
    ecx := len
    eip := 0x400011 }

/-- The lines printed after `n` instructions. -/
def programPrints (pid : Nat) (msg : List Byte) (n : Nat) : List (List Byte) :=
  if n < 4 then [] else calledLine pid :: if msg = [] then [] else [messageLine (msg.take 255)]

section UserRun

variable {image : KernelImage} {first : FrameMap} {k₀ k k' : Kernel} {t t' : Machine} {Held : Nat → Prop}
  {cpu : Cpu} {code : HandlerCode Machine} {v₀ : Vectors} {stack : Nat → Byte} {v : View} {o : OwnState}
  {msg bytes : List Byte} {p q i n va pid : Nat} {u u' w : UserState} {es es' : List UserEvent}
  {evs : List MachineEvent}

theorem userProgram_length (len : Nat) : (userProgram len).length = 19 := rfl

/-- An instruction of the program, in sight. -/
theorem HoldsProgram.holds (h : HoldsProgram v msg) (hi : va = userTestCodeVa + i)
    (hbytes : bytes = ((userProgram msg.length).drop i).take bytes.length) (hlast : i + bytes.length ≤ 19) :
    v.Holds va bytes := by
  intro x hx
  have hadd : wadd va x = userTestCodeVa + (i + x) := by
    rw [hi]
    simp only [wadd, userTestCodeVa]
    omega
  rw [hadd, h.code _ (by omega)]
  have hget : bytes.getD x 0 = (userProgram msg.length).getD (i + x) 0x90 := by
    rw [hbytes]
    simp only [List.getD_eq_getElem?_getD]
    rw [List.getElem?_take_of_lt hx, List.getElem?_drop, List.getElem?_eq_getElem (by
      rw [userProgram_length]
      omega)]
    rfl
  rw [hget]

/-- A string without NUL is read as far as asked. -/
theorem readString_message (hlen : msg.length < 4096) (hnul : 0 ∉ msg)
    (hdata : ∀ x < 4096, v.byte (userTestDataVa + x) = some (msg.getD x 0)) (hn : i + n ≤ msg.length) :
    readString v userTestDataVa i n = some ((msg.drop i).take n) := by
  induction n generalizing i with
  | zero => rw [readString, List.take_zero]
  | succ n ih =>
    have hadd : wadd userTestDataVa i = userTestDataVa + i := by
      simp only [wadd, userTestDataVa]
      omega
    have hi : i < msg.length := by omega
    have hget : msg.getD i 0 = msg[i] := by
      rw [List.getD_eq_getElem?_getD, List.getElem?_eq_getElem hi, Option.getD_some]
    have hne : msg[i] ≠ 0 := fun he => hnul (he ▸ List.getElem_mem hi)
    rw [readString, hadd, hdata i (by omega), Option.bind_some, hget, if_neg hne, ih (by omega),
      Option.map_some, List.drop_eq_getElem_cons hi, List.take_succ_cons]

/-- The system call of the program. -/
theorem HoldsProgram.printCall (h : HoldsProgram v msg) (hnul : 0 ∉ msg) :
    printCall v userTestDataVa msg.length =
      (if msg.length = 0 then syscallEinval else syscallSuccess,
        if msg = [] then none else some (msg.take 255)) := by
  unfold Process.printCall
  by_cases hz : msg.length = 0
  · rw [if_pos (Or.inr hz), if_pos hz, if_pos (List.length_eq_zero_iff.1 hz)]
  · rw [if_neg (by simp [userTestDataVa, hz]), readString_message h.length hnul h.data (by omega), if_neg hz,
      if_neg fun he => hz (List.length_eq_zero_iff.2 he), List.drop_zero]
    dsimp only
    rcases Nat.le_total msg.length 255 with hle | hle
    · rw [Nat.min_eq_left hle, List.take_of_length_le hle, List.take_of_length_le (Nat.le_refl _)]
    · rw [Nat.min_eq_right hle]

theorem programPrints_ended (hn : 4 ≤ n) (pid : Nat) (msg : List Byte) : programPrints pid msg n =
    calledLine pid :: if msg = [] then [] else [messageLine (msg.take 255)] := by
  rw [programPrints, if_neg (Nat.not_lt.2 hn)]

theorem mem_programPrints {line : List Byte} (h : line ∈ programPrints pid msg n) :
    line = calledLine pid ∨ line = messageLine (msg.take 255) := by
  unfold programPrints at h
  split at h
  · cases h
  · rcases List.mem_cons.1 h with rfl | hmore
    · exact Or.inl rfl
    · split at hmore
      · cases hmore
      · exact Or.inr (List.mem_singleton.1 hmore)

/-- The next instruction of the program. -/
theorem HoldsProgram.next (h : HoldsProgram o.sight msg) (hnul : 0 ∉ msg) (hcpu : Executes cpu)
    {regs : UserRegs} (heip : regs.eip = userTestCodeVa)
    (ho : o.regs = programRegs regs msg.length n) (hprinted : o.printed = programPrints o.pid msg n) :
    o.next cpu =
      some ⟨o.pid, programRegs regs msg.length (n + 1), o.sight, programPrints o.pid msg (n + 1)⟩ := by
  have hlen := h.length
  rw [OwnState.next, ho, hprinted]
  rcases n with _ | _ | _ | _ | n
  · have hcode : o.sight.Holds (programRegs regs msg.length 0).eip (0xB8 :: immBytes sysPrintStringNumber) :=
      h.holds (i := 0) heip rfl (by decide)
    rw [hcpu.movEax (programRegs regs msg.length 0) _ _ (by decide) hcode]
    dsimp only
    rw [show wadd (programRegs regs msg.length 0).eip 5 = 0x400005 by rw [programRegs, heip]; rfl]
    rfl
  · have hcode : o.sight.Holds (programRegs regs msg.length 1).eip (0xBB :: immBytes userTestDataVa) :=
      h.holds (i := 5) rfl rfl (by decide)
    rw [hcpu.movEbx _ _ _ (by decide) hcode]
    rfl
  · have hcode : o.sight.Holds (programRegs regs msg.length 2).eip (0xB9 :: immBytes msg.length) :=
      h.holds (i := 10) rfl rfl (by simp [immBytes])
    rw [hcpu.movEcx _ _ _ (by omega) hcode]
    rfl
  · have hcode : o.sight.Holds (programRegs regs msg.length 3).eip [0xCD, 0x80] :=
      h.holds (i := 15) rfl rfl (by decide)
    rw [hcpu.int80 _ _ hcode]
    have heax : (programRegs regs msg.length 3).eax = sysPrintStringNumber := rfl
    have hcall : Process.printCall o.sight (programRegs regs msg.length 3).ebx
        (programRegs regs msg.length 3).ecx = _ := h.printCall hnul
    have hprints : programPrints o.pid msg 3 ++ calledLine o.pid ::
          ((if msg = [] then none else some (msg.take 255)).map messageLine).toList =
        programPrints o.pid msg 4 := by
      by_cases he : msg = []
      · simp [programPrints, he]
      · simp [programPrints, he]
    dsimp only
    rw [if_pos heax, hcall, hprints]
    rfl
  · have hcode : o.sight.Holds (programRegs regs msg.length (n + 4)).eip [0xEB, 0xFE] :=
      h.holds (i := 17) rfl rfl (by decide)
    rw [hcpu.jmpSelf _ _ hcode, programPrints_ended (Nat.le_add_left 4 n),
      programPrints_ended (Nat.le_succ_of_le (Nat.le_add_left 4 n))]
    rfl

/-- The program on a machine of its own. -/
theorem HoldsProgram.runs (h : HoldsProgram o.sight msg) (hnul : 0 ∉ msg) (hcpu : Executes cpu)
    (heip : o.regs.eip = userTestCodeVa) (hprinted : o.printed = []) (n : Nat) :
    stepsOf (OwnState.next cpu) n o =
      some ⟨o.pid, programRegs o.regs msg.length n, o.sight, programPrints o.pid msg n⟩ := by
  induction n with
  | zero =>
    rw [stepsOf_zero, programPrints, if_pos (by decide), ← hprinted]
    rfl
  | succ n ih =>
    rw [stepsOf_succ, ih, Option.bind_some]
    exact HoldsProgram.next
      (o := ⟨o.pid, programRegs o.regs msg.length n, o.sight, programPrints o.pid msg n⟩) h hnul hcpu heip rfl
      rfl

/-! ## Among the others -/

theorem HasMessage.holdsProgram (h : HasMessage k q msg) (hlen : msg.length < 4096) :
    HoldsProgram (userSight k.pmm.mem (kv2p (k.procs q).pageDirectory)) msg := by
  refine ⟨hlen, fun x hx => ?_, fun x hx => ?_⟩
  · rw [View.byte, userSight, if_pos (by simp only [userTestCodeVa]; omega)]
    exact h.code x hx
  · rw [View.byte, userSight, if_pos (by simp only [userTestDataVa]; omega)]
    exact h.data x hx

/-- What a process starts with, the one that is entered or another. -/
theorem Entered.start (h : Entered k p t) (q : Nat) :
    (t.own q).pid = (k.procs q).pid ∧ (t.own q).regs.eip = (k.procs q).context.eip ∧
      (t.own q).sight = userSight k.pmm.mem (kv2p (k.procs q).pageDirectory) ∧ (t.own q).printed = [] := by
  obtain ⟨esp0, tick, frequency, eflags, hsched⟩ := h.sched
  have hprocs : (t.sched.procs q).pid = (k.procs q).pid ∧
      (t.sched.procs q).context.eip = (k.procs q).context.eip ∧
      (t.sched.procs q).pageDirectory = (k.procs q).pageDirectory := by
    rw [hsched]
    by_cases hq : q = p
    · rw [hq, procEnter_self]
      exact ⟨rfl, rfl, rfl⟩
    · rw [procEnter_other hq]
      exact ⟨rfl, rfl, rfl⟩
  refine ⟨hprocs.1, ?_, ?_, ?_⟩
  · unfold Machine.own
    dsimp only
    split
    · rename_i hq
      have hp : q = p := by
        rw [hq, hsched]
        rfl
      rw [h.eip, ← hp]
      exact hprocs.2.1
    · exact hprocs.2.1
  · show userSight t.mem _ = _
    rw [h.mem, hprocs.2.2]
  · show t.printed q = []
    rw [Machine.printed, h.console]
    rfl

theorem Entered.current (h : Entered k p t) : t.sched.currentProc = p := by
  obtain ⟨esp0, tick, frequency, eflags, hsched⟩ := h.sched
  rw [hsched]
  rfl

/-- What comes of a process that has its message and is about to start. -/
theorem HasMessage.prints (h : HasMessage k q msg) (hi : UserSpaces image first Closed k Held)
    (hlen : msg.length < 4096) (hnul : 0 ∉ msg) (hstart : (k.procs q).context.eip = userTestCodeVa)
    (hcode : KernelCode code stack) (hcpu : Executes cpu) (hp : UserProcess k p)
    (henter : Entered k p t) (hmachine : Run (MachineStep cpu code v₀) t evs t') :
    t'.printed q = programPrints (k.procs q).pid msg (evs.countP (MachineEvent.isInstr q)) ∧
      (q = t'.sched.currentProc → ∀ esp, (t'.instr cpu code v₀ esp).isSome) := by
  obtain ⟨hpid, heip, hsight, hprinted⟩ := henter.start q
  have hholds : HoldsProgram (t.own q).sight msg := by
    rw [hsight]
    exact h.holdsProgram hlen
  rw [hstart] at heip
  obtain ⟨hinv, hsteps⟩ := (machine_component hcode h.process).run (henter.inv hi hp) hmachine
  rw [hholds.runs hnul hcpu heip hprinted] at hsteps
  have hown := Option.some.inj hsteps
  refine ⟨?_, fun hcur esp => ?_⟩
  · rw [← hpid]
    exact (congrArg OwnState.printed hown).symm
  have hrunning := HoldsProgram.next (o := t'.own q) (n := evs.countP (MachineEvent.isInstr q))
    (by rw [← hown]; exact hholds) hnul hcpu heip (by rw [← hown]) (by rw [← hown])
  have hinstr : (t'.instr cpu code v₀ esp).map (Machine.own q) = (t'.own q).next cpu :=
    hinv.instr_own hcode hcur
  rw [hrunning] at hinstr
  obtain ⟨t'', hsome, -⟩ := Option.map_eq_some_iff.1 hinstr
  rw [hsome]
  rfl

/-- Left to itself, the process that has the processor runs on. -/
theorem HasMessage.instructions (h : HasMessage k q msg) (hi : UserSpaces image first Closed k Held)
    (hlen : msg.length < 4096) (hnul : 0 ∉ msg) (hstart : (k.procs q).context.eip = userTestCodeVa)
    (hcode : KernelCode code stack) (hcpu : Executes cpu) (hp : UserProcess k p) (henter : Entered k p t)
    (hmachine : Run (MachineStep cpu code v₀) t evs t') (hcur : t'.sched.currentProc = q) (n : Nat) :
    ∃ t'', Run (MachineStep cpu code v₀) t' (List.replicate n (.instr q 0)) t'' ∧ t''.sched = t'.sched := by
  induction n with
  | zero => exact ⟨t', .nil t', rfl⟩
  | succ n ih =>
    obtain ⟨t₁, hrun, hsched⟩ := ih
    have hcur₁ : t₁.sched.currentProc = q := by
      rw [hsched]
      exact hcur
    have hsofar := hmachine.append hrun
    have hsome := (h.prints hi hlen hnul hstart hcode hcpu hp henter hsofar).2 hcur₁.symm 0
    obtain ⟨t'', hinstr⟩ := Option.isSome_iff_exists.1 hsome
    have hinv := ((machine_component hcode h.process).run (henter.inv hi hp) hsofar).1
    refine ⟨t'', ?_, (hinv.instr hcode hinstr).2.1.trans hsched⟩
    rw [List.replicate_succ']
    exact hrun.snoc ⟨hcur₁.symm, hinstr⟩

/-! ## A processor -/

/-- The immediate of an instruction. -/
def View.imm (v : View) (va : Nat) : Nat :=
  ((v.byte (wadd va 1)).getD 0).toNat + 256 * ((v.byte (wadd va 2)).getD 0).toNat +
    65536 * ((v.byte (wadd va 3)).getD 0).toNat + 16777216 * ((v.byte (wadd va 4)).getD 0).toNat

/-- A processor that knows the five instructions and stays where it is at any other. -/
def messageCpu : Cpu := fun regs v =>
  let opcode := v.byte (wadd regs.eip 0)
  let imm := v.imm regs.eip
  if opcode = some 0xB8 then .go { regs with eax := imm, eip := wadd regs.eip 5 }
  else if opcode = some 0xBB then .go { regs with ebx := imm, eip := wadd regs.eip 5 }
  else if opcode = some 0xB9 then .go { regs with ecx := imm, eip := wadd regs.eip 5 }
  else if opcode = some 0xCD ∧ v.byte (wadd regs.eip 1) = some 0x80 then
    .syscall { regs with eip := wadd regs.eip 2 }
  else .go regs

theorem View.Holds.imm {c : Byte} {imm : Nat} (h : v.Holds va (c :: immBytes imm)) (himm : imm < 4294967296) :
    v.imm va = imm := by
  have h₁ := h 1 (by simp [immBytes])
  have h₂ := h 2 (by simp [immBytes])
  have h₃ := h 3 (by simp [immBytes])
  have h₄ := h 4 (by simp [immBytes])
  simp only [immBytes, List.getD_cons_succ, List.getD_cons_zero] at h₁ h₂ h₃ h₄
  simp only [View.imm, h₁, h₂, h₃, h₄, Option.getD_some, BitVec.toNat_ofNat]
  omega

theorem View.Holds.head {c : Byte} (h : v.Holds va (c :: bytes)) : v.byte (wadd va 0) = some c :=
  h 0 (Nat.succ_pos _)

theorem messageCpu_executes : Executes messageCpu := by
  constructor
  · intro regs v imm himm h
    simp [messageCpu, h.head, h.imm himm]
  · intro regs v imm himm h
    simp [messageCpu, h.head, h.imm himm]
  · intro regs v imm himm h
    simp [messageCpu, h.head, h.imm himm]
  · intro regs v h
    have hvector : v.byte (wadd regs.eip 1) = some 0x80 := h 1 (by decide)
    simp [messageCpu, h.head, hvector]
  · intro regs v h
    simp [messageCpu, h.head]

theorem messageCpu_cases (regs : UserRegs) (v : View) : ∃ regs' : UserRegs,
    (messageCpu regs v = .go regs' ∨ messageCpu regs v = .syscall regs') ∧ regs'.cs = regs.cs := by
  unfold messageCpu
  dsimp only
  split
  · exact ⟨_, Or.inl rfl, rfl⟩
  · split
    · exact ⟨_, Or.inl rfl, rfl⟩
    · split
      · exact ⟨_, Or.inl rfl, rfl⟩
      · split
        · exact ⟨_, Or.inr rfl, rfl⟩
        · exact ⟨_, Or.inl rfl, rfl⟩

theorem messageCpu_staysUser : messageCpu.StaysUser := by
  intro regs v hregs
  obtain ⟨regs', hgo | hcall, hcs⟩ := messageCpu_cases regs v
  · rw [hgo, UserAction.StaysUser, hcs]
    exact hregs
  · rw [hcall, UserAction.StaysUser, hcs]
    exact hregs

/-- It never stops. -/
theorem messageCpu_instr (hi : MachineInv image first k Held t)
    (hcode : KernelCode code stack) :
    ∃ t', t.instr messageCpu code v₀ 0 = some t' ∧ MachineInv image first k Held t' := by
  have hsome : ∃ t', t.instr messageCpu code v₀ 0 = some t' := by
    obtain ⟨regs, hgo | hcall, -⟩ := messageCpu_cases t.regs (userSight t.mem t.sched.cr3)
    · rw [Machine.instr, hgo]
      exact ⟨_, rfl⟩
    · rw [Machine.instr, hcall]
      dsimp only
      rw [hi.syscall hcode]
      split
      · exact ⟨_, rfl⟩
      · exact ⟨_, rfl⟩
  obtain ⟨t', hinstr⟩ := hsome
  exact ⟨t', hinstr, (hi.instr hcode hinstr).1⟩

/-- The same processor, which faults where it finds no instruction. -/
def fetchingCpu : Cpu := fun regs v =>
  if v.byte (wadd regs.eip 0) = none then .fault else messageCpu regs v

theorem fetchingCpu_fetches : fetchingCpu.Fetches := fun _ _ h => if_pos h

theorem fetchingCpu_eq {c : Byte} {regs : UserRegs} (h : v.Holds regs.eip (c :: bytes)) :
    fetchingCpu regs v = messageCpu regs v := by
  rw [fetchingCpu, if_neg (by rw [h.head]; exact Option.some_ne_none c)]

theorem fetchingCpu_executes : Executes fetchingCpu := by
  constructor
  · exact fun regs v imm himm h => (fetchingCpu_eq h).trans (messageCpu_executes.movEax regs v imm himm h)
  · exact fun regs v imm himm h => (fetchingCpu_eq h).trans (messageCpu_executes.movEbx regs v imm himm h)
  · exact fun regs v imm himm h => (fetchingCpu_eq h).trans (messageCpu_executes.movEcx regs v imm himm h)
  · exact fun regs v h => (fetchingCpu_eq h).trans (messageCpu_executes.int80 regs v h)
  · exact fun regs v h => (fetchingCpu_eq h).trans (messageCpu_executes.jmpSelf regs v h)

theorem fetchingCpu_staysUser : fetchingCpu.StaysUser := by
  intro regs v hregs
  unfold fetchingCpu
  split
  · trivial
  · exact messageCpu_staysUser regs v hregs

/-! ## Processes made one after the other -/

/-- Each call of `make_user_proc_with_message` is given by its message and what it returned. -/
def MessageStep (image : KernelImage) (u : UserState) (c : List Byte × Nat) (u' : UserState) : Prop :=
  UserStep image u (.message c.1 c.2) u'

/-- The processes are those made, each with its message and about to start. -/
structure Prepared (calls : List (List Byte × Nat)) (k : Kernel) : Prop where
  made : ∀ c ∈ calls, c.2 ≠ 0 → HasMessage k c.2 c.1 ∧ c.1.length < 4096 ∧
    (k.procs c.2).context.eip = userTestCodeVa
  only : ∀ q, UserProcess k q → ∃ c ∈ calls, c.2 = q

variable {calls : List (List Byte × Nat)}

theorem Prepared.step {c : List Byte × Nat} (hi : UserInv image first u) (hp : Prepared calls u.kernel)
    (h : MessageStep image u c u') (hok : u'.kernel.pmm.failed = false) :
    Prepared (calls ++ [c]) u'.kernel := by
  have hok₀ := (UserStep.grows h hi.1).not_failed hok
  have hdone := (hi.2 hok₀).message h.1 h.2.1 hok
  constructor
  · intro c' hc' hne
    rcases List.mem_append.1 hc' with hold | hnew
    · obtain ⟨hhas, hlen, hstart⟩ := hp.made c' hold hne
      have hview := hdone.unseen.views rfl _ hhas.process
      exact ⟨hhas.kept hview, hlen, by rw [hview.record]; exact hstart⟩
    · obtain rfl := List.mem_singleton.1 hnew
      obtain ⟨-, hhas, -, old, hcontext⟩ := hdone.made hne
      exact ⟨hhas rfl, h.1, by rw [hcontext]; rfl⟩
  · intro q hq
    rcases hdone.cases q hq with rfl | hold
    · exact ⟨c, by simp, rfl⟩
    · obtain ⟨c', hc', he⟩ := hp.only q hold
      exact ⟨c', List.mem_append_left _ hc', he⟩

theorem Prepared.run (hb : Boot image k₀ k) (hl₀ : Loaded image k₀.pmm) (hl : image.Linked)
    (hcr3 : k₀.cr3 = image.dirPaddr) (hrun : Run (MessageStep image) ⟨k, fun _ => False⟩ calls u) :
    UserInv image k.pmm.framemap u ∧ (u.kernel.pmm.failed = false → Prepared calls u.kernel) := by
  have hstart := UserInv.run hb hl₀ hl hcr3 (.nil _)
  refine hrun.invariant_trace (I := fun calls u => UserInv image k.pmm.framemap u ∧
    (u.kernel.pmm.failed = false → Prepared calls u.kernel)) ?_ ⟨hstart, fun _ => ⟨?_, fun q hq => ?_⟩⟩
  · intro calls u c u' ⟨hi, hp⟩ hstep
    exact ⟨hi.step hstep, fun hok =>
      (hp ((UserStep.grows hstep hi.1).not_failed hok)).step hi hstep hok⟩
  · exact fun c hc => absurd hc List.not_mem_nil
  · exact absurd hq (hb.no_process q)

/-! ## Two processes, run -/

/-- The process in the slot behind that of the current one has the next turn, if it can run. -/
theorem nextTurn_second {s : Sched} {cur : Nat} (hkernel : s.procList 0 ≠ cur) (hcur : s.procList 1 = cur)
    (hnext : s.procList 2 = q) (hq : Schedulable s q) (hne : q ≠ cur) : nextTurn s cur = q := by
  have hidx : findCurIdx s.procList cur 0 maxProc = some 1 := by
    rw [show maxProc = 62 + 1 + 1 from rfl, findCurIdx, if_neg hkernel, findCurIdx, if_pos hcur]
  have hscan : pickScan s cur 2 (maxProc - 2) = some q := by
    rw [show maxProc - 2 = 61 + 1 from rfl, pickScan]
    simp only [hnext, if_neg hq.1, if_neg hne, if_neg (not_not.2 hq.2.1), if_neg (not_not.2 hq.2.2)]
  have hpick : pickNextProc s cur = q := by
    rw [pickNextProc, hidx]
    dsimp only
    rw [hscan]
  rw [nextTurn, hpick, if_neg hq.1]

/-- The processes of `two_message_processes`, the first entered. -/
theorem two_messages_entered (frequency : Nat) : ∃ k k₁ k₂ t, Boot sampleImage pagedKernel k ∧
    UserStep sampleImage ⟨k, fun _ => False⟩ (.message [72, 105] 0xC04000A0) ⟨k₁, fun _ => False⟩ ∧
    UserStep sampleImage ⟨k₁, fun _ => False⟩ (.message [66, 121, 101] 0xC0402150) ⟨k₂, fun _ => False⟩ ∧
    k₂.pmm.failed = false ∧ Entered k₂ 0xC04000A0 t ∧ t.sched.tick = 0 ∧
    t.sched.pitCurFrequency = frequency ∧ nextTurn t.sched 0xC04000A0 = 0xC0402150 := by
  obtain ⟨k, k₁, k₂, hboot, hstep, hstep', hok, hslot₀, hslot₁, hslot₂⟩ := two_message_processes
    (show ([72, 105] : List Byte).length < 4096 by decide)
    (show ([66, 121, 101] : List Byte).length < 4096 by decide)
  let s := procEnter (k₂.sched 0 0 frequency) 0xC04000A0 0
  let t : Machine := ⟨k₂.pmm.mem, s, (s.procs 0xC04000A0).context.user, []⟩
  have henter : Entered k₂ 0xC04000A0 t := ⟨rfl, ⟨0, 0, frequency, 0, rfl⟩, rfl, rfl, rfl, rfl, rfl, rfl⟩
  have hspaces := (UserInv.run hboot pagedKernel_loaded sampleImage_linked rfl
    ((Run.single hstep).snoc hstep')).2 hok
  have hsecond : Schedulable t.sched 0xC0402150 :=
    (mem_runQueue.1 (henter.mem_runQueue hspaces ⟨by decide, 2, by decide, by decide, hslot₂⟩)).2
  refine ⟨k, k₁, k₂, t, hboot, hstep, hstep', hok, henter, rfl, rfl, nextTurn_second ?_ hslot₁ hslot₂ hsecond
    (by decide)⟩
  rw [show t.sched.procList 0 = 0xC0400010 from hslot₀]
  decide

theorem two_messages_prepared {k₁ k₂ : Kernel} (hboot : Boot sampleImage pagedKernel k)
    (hstep : UserStep sampleImage ⟨k, fun _ => False⟩ (.message [72, 105] 0xC04000A0) ⟨k₁, fun _ => False⟩)
    (hstep' : UserStep sampleImage ⟨k₁, fun _ => False⟩ (.message [66, 121, 101] 0xC0402150)
      ⟨k₂, fun _ => False⟩) (hok : k₂.pmm.failed = false) :
    UserSpaces sampleImage k.pmm.framemap Closed k₂ (fun _ => False) ∧
      Prepared [([72, 105], 0xC04000A0), ([66, 121, 101], 0xC0402150)] k₂ := by
  have hmade : Run (MessageStep sampleImage) ⟨k, fun _ => False⟩
      [([72, 105], 0xC04000A0), ([66, 121, 101], 0xC0402150)] ⟨k₂, fun _ => False⟩ :=
    .cons hstep (.single hstep')
  obtain ⟨hi, hprep⟩ := Prepared.run hboot pagedKernel_loaded sampleImage_linked rfl hmade
  exact ⟨hi.2 hok, hprep hok⟩

/-- Four instructions of the first process, two ticks, and four instructions of the second. -/
def twoTurns : List MachineEvent :=
  (List.replicate 4 (.instr 0xC04000A0 0) ++ [.timer 0, .timer 0]) ++ List.replicate 4 (.instr 0xC0402150 0)

/-- The two processes take their turns, of two ticks each. -/
theorem two_messages_run : ∃ k k₁ k₂ t t', Boot sampleImage pagedKernel k ∧
    UserStep sampleImage ⟨k, fun _ => False⟩ (.message [72, 105] 0xC04000A0) ⟨k₁, fun _ => False⟩ ∧
    UserStep sampleImage ⟨k₁, fun _ => False⟩ (.message [66, 121, 101] 0xC0402150) ⟨k₂, fun _ => False⟩ ∧
    k₂.pmm.failed = false ∧ UserProcess k₂ 0xC04000A0 ∧ Entered k₂ 0xC04000A0 t ∧
    Run (MachineStep fetchingCpu (bareCode fun _ => 0) ⟨fun _ => 0, fun _ => 0⟩) t twoTurns t' := by
  obtain ⟨k, k₁, k₂, t, hboot, hstep, hstep', hok, henter, htick, hfreq, hnext⟩ := two_messages_entered 1
  obtain ⟨hi, hprep⟩ := two_messages_prepared hboot hstep hstep' hok
  obtain ⟨hhas, hlen, hstart⟩ := hprep.made _ List.mem_cons_self (by decide)
  obtain ⟨hhas', hlen', hstart'⟩ := hprep.made _ (List.mem_cons_of_mem _ List.mem_cons_self) (by decide)
  have hcode := bareCode_kernelCode fun _ => 0
  have hcurrent := henter.current
  have hrun₀ : Run (MachineStep fetchingCpu (bareCode fun _ => 0) ⟨fun _ => 0, fun _ => 0⟩) t [] t := .nil t
  obtain ⟨t₁, hrun₁, hsched₁⟩ := hhas.instructions hi hlen (by decide) hstart hcode fetchingCpu_executes
    hhas.process henter hrun₀ hcurrent 4
  have hrun₂ := hrun₁.append (.cons rfl (.single rfl) : Run (MachineStep fetchingCpu (bareCode fun _ => 0)
    ⟨fun _ => 0, fun _ => 0⟩) t₁ [.timer 0, .timer 0] ((t₁.timer 0).timer 0))
  have hcount : (List.replicate 4 (.instr 0xC04000A0 0) ++ [.timer 0, .timer 0] :
      List MachineEvent).countP MachineEvent.isTimer = 2 := rfl
  have hslice : t.sched.slice = 2 := by
    rw [Sched.slice, hfreq]
    rfl
  obtain ⟨-, hturns⟩ := TurnsTaken.run (henter.inv hi hhas.process) (henter.inUserMode hi hhas.process) hcode
    fetchingCpu_staysUser (by rw [hslice]; decide) hrun₂ (by rw [htick, hcount]; decide)
  have hturn := hturns.turn
  rw [htick, hcount, hslice, hcurrent] at hturn
  obtain ⟨t', hrun₃, -⟩ := hhas'.instructions hi hlen' (by decide) hstart' hcode fetchingCpu_executes
    hhas.process henter hrun₂ (hturn.trans hnext) 4
  exact ⟨k, k₁, k₂, t, t', hboot, hstep, hstep', hok, hhas.process, henter, hrun₂.append hrun₃⟩

/-- What a run that spares a process began without a failed allocation, if it ends so. -/
theorem spared_not_failed (hi : UserInv image first u)
    (hmore : Run (fun t e t' => UserStep image t e t' ∧ Spares q t e) u es w)
    (hok : w.kernel.pmm.failed = false) : u.kernel.pmm.failed = false := by
  have hgrows := hmore.invariant (I := fun x => UserInv image first x ∧
    (u.kernel.pmm.failed = true → x.kernel.pmm.failed = true)) (fun x e x' hx hstep =>
      ⟨hx.1.step hstep.1, fun hf => (hstep.1.grows hx.1.1).failed (hx.2 hf)⟩) ⟨hi, fun hf => hf⟩
  rw [← Bool.not_eq_true]
  intro hf
  rw [hgrows.2 hf] at hok
  cases hok

/-- A process made with a message prints it with its fourth instruction, the first 255 bytes and
behind the line that names it, and never anything else, and it never faults: after any run of the
kernel that maps nothing into it, and in any run of the machine with the other processes and the
timer. -/
theorem message_printed (hb : Boot image k₀ k) (hl₀ : Loaded image k₀.pmm) (hl : image.Linked)
    (hcr3 : k₀.cr3 = image.dirPaddr) (hrun : Run (UserStep image) ⟨k, fun _ => False⟩ es u)
    (hmsg : UserStep image u (.message msg q) u') (hne : q ≠ 0) (hnul : 0 ∉ msg)
    (hmore : Run (fun t e t' => UserStep image t e t' ∧ Spares q t e) u' es' w)
    (hok : w.kernel.pmm.failed = false) (hcode : KernelCode code stack)
    (hcpu : Executes cpu) (hp : UserProcess w.kernel p) (henter : Entered w.kernel p t)
    (hmachine : Run (MachineStep cpu code v₀) t evs t') :
    t'.printed q = programPrints (w.kernel.procs q).pid msg (evs.countP (MachineEvent.isInstr q)) ∧
      (q = t'.sched.currentProc → ∀ esp, (t'.instr cpu code v₀ esp).isSome) := by
  have hfirst := UserInv.run hb hl₀ hl hcr3 hrun
  have hmade := hrun.snoc hmsg
  have hspaces := (UserInv.run hb hl₀ hl hcr3 (hmade.append (hmore.mono fun _ _ _ h => h.1))).2 hok
  have hok' := spared_not_failed (UserInv.run hb hl₀ hl hcr3 hmade) hmore hok
  have hok₀ := (hmsg.grows hfirst.1).not_failed hok'
  obtain ⟨-, hhas, -, old, hcontext⟩ := ((hfirst.2 hok₀).message hmsg.1 hmsg.2.1 hok').made hne
  have hkept := (UserInv.run hb hl₀ hl hcr3 hmade).view_run (hhas rfl).process hmore hok
  refine ((hhas rfl).kept hkept).prints hspaces hmsg.1 hnul ?_ hcode hcpu hp henter hmachine
  rw [hkept.record, hcontext]
  rfl

/-- The first of two processes has printed its message when the second has had a turn. -/
theorem message_printed_two : ∃ k t t', Entered k 0xC04000A0 t ∧
    Run (MachineStep fetchingCpu (bareCode fun _ => 0) ⟨fun _ => 0, fun _ => 0⟩) t twoTurns t' ∧
    t'.printed 0xC04000A0 = [calledLine (k.procs 0xC04000A0).pid, messageLine [72, 105]] := by
  obtain ⟨k, k₁, k₂, t, t', hboot, hstep, hstep', hok, hproc, henter, hmachine⟩ := two_messages_run
  have hmore : Run (fun t e t' => UserStep sampleImage t e t' ∧ Spares 0xC04000A0 t e) ⟨k₁, fun _ => False⟩
      [.message [66, 121, 101] 0xC0402150] ⟨k₂, fun _ => False⟩ := .single ⟨hstep', trivial⟩
  exact ⟨k₂, t, t', henter, hmachine,
    (message_printed hboot pagedKernel_loaded sampleImage_linked rfl (.nil _)
    hstep (by decide) (by decide) hmore hok (bareCode_kernelCode _) fetchingCpu_executes hproc henter
    hmachine).1⟩

/-- `kernel_three_process_test`, for any messages: whatever the timer does, each process that is
made prints its message with its fourth instruction, behind the line that names it. Besides these
lines only those of the timer come on the console, and no process faults. -/
theorem messages_printed (hb : Boot image k₀ k) (hl₀ : Loaded image k₀.pmm) (hl : image.Linked)
    (hcr3 : k₀.cr3 = image.dirPaddr) (hrun : Run (MessageStep image) ⟨k, fun _ => False⟩ calls u)
    (hok : u.kernel.pmm.failed = false) (hnul : ∀ c ∈ calls, 0 ∉ c.1)
    (hcode : KernelCode code stack) (hcpu : Executes cpu) (hfetch : cpu.Fetches)
    (hp : UserProcess u.kernel p) (henter : Entered u.kernel p t)
    (hmachine : Run (MachineStep cpu code v₀) t evs t') :
    (∀ c ∈ calls, c.2 ≠ 0 → t'.printed c.2 =
      programPrints (u.kernel.procs c.2).pid c.1 (evs.countP (MachineEvent.isInstr c.2))) ∧
    (∀ line ∈ t'.console, line.1 = 0 ∧ TimerLine line.2 ∨ ∃ c ∈ calls, c.2 ≠ 0 ∧ line.1 = c.2 ∧
      (line.2 = calledLine (u.kernel.procs c.2).pid ∨ line.2 = messageLine (c.1.take 255))) ∧
    (UserProcess u.kernel t'.sched.currentProc → ∀ esp, (t'.instr cpu code v₀ esp).isSome) := by
  obtain ⟨hi, hprepared⟩ := Prepared.run hb hl₀ hl hcr3 hrun
  have hspaces := hi.2 hok
  have hprep := hprepared hok
  have hprints : ∀ c ∈ calls, c.2 ≠ 0 → _ := fun c hc hne =>
    (hprep.made c hc hne).1.prints hspaces (hprep.made c hc hne).2.1 (hnul c hc)
      (hprep.made c hc hne).2.2 hcode hcpu hp henter hmachine
  refine ⟨fun c hc hne => (hprints c hc hne).1, fun line hline => ?_, fun hcur => ?_⟩
  · rcases machine_console hcode hfetch (henter.inv hspaces hp) henter.console hmachine line hline with
      htimer | huser
    · exact Or.inl htimer
    · obtain ⟨c, hc, he⟩ := hprep.only _ huser
      have hne : c.2 ≠ 0 := by
        rw [he]
        exact huser.1
      have hmem : line.2 ∈ t'.printed c.2 :=
        List.mem_map.2 ⟨line, List.mem_filter.2 ⟨hline, by rw [he]; simp⟩, rfl⟩
      rw [(hprints c hc hne).1] at hmem
      exact Or.inr ⟨c, hc, hne, he.symm, mem_programPrints hmem⟩
  · obtain ⟨c, hc, he⟩ := hprep.only _ hcur
    exact (hprints c hc (by rw [he]; exact hcur.1)).2 he

/-- Two processes: both messages have been printed, and besides them there are only the timer's lines. -/
theorem messages_printed_two : ∃ k t t', Entered k 0xC04000A0 t ∧
    Run (MachineStep fetchingCpu (bareCode fun _ => 0) ⟨fun _ => 0, fun _ => 0⟩) t twoTurns t' ∧
    t'.printed 0xC04000A0 = [calledLine (k.procs 0xC04000A0).pid, messageLine [72, 105]] ∧
    t'.printed 0xC0402150 = [calledLine (k.procs 0xC0402150).pid, messageLine [66, 121, 101]] ∧
    ∀ line ∈ t'.console, line.1 = 0 → TimerLine line.2 := by
  obtain ⟨k, k₁, k₂, t, t', hboot, hstep, hstep', hok, hproc, henter, hmachine⟩ := two_messages_run
  have hmade : Run (MessageStep sampleImage) ⟨k, fun _ => False⟩
      [([72, 105], 0xC04000A0), ([66, 121, 101], 0xC0402150)] ⟨k₂, fun _ => False⟩ :=
    .cons hstep (.single hstep')
  obtain ⟨hprinted, hlines, -⟩ := messages_printed hboot pagedKernel_loaded sampleImage_linked rfl hmade hok
    (by decide) (bareCode_kernelCode _) fetchingCpu_executes fetchingCpu_fetches hproc henter hmachine
  refine ⟨k₂, t, t', henter, hmachine, hprinted _ List.mem_cons_self (by decide),
    hprinted _ (List.mem_cons_of_mem _ List.mem_cons_self) (by decide), fun line hline hzero => ?_⟩
  rcases hlines line hline with htimer | ⟨c, -, hne, he, -⟩
  · exact htimer.2
  · exact absurd (he.symm.trans hzero) hne

/-- Once the timer has given every process of the queue its turn, every message has been printed,
the first 255 bytes, up to the first byte that `printf` takes for `EOF`. -/
theorem all_messages_printed (hb : Boot image k₀ k) (hl₀ : Loaded image k₀.pmm) (hl : image.Linked)
    (hcr3 : k₀.cr3 = image.dirPaddr) (hrun : Run (MessageStep image) ⟨k, fun _ => False⟩ calls u)
    (hok : u.kernel.pmm.failed = false) (hnul : ∀ c ∈ calls, 0 ∉ c.1)
    (hcode : KernelCode code stack) (hcpu : Executes cpu) (hstays : cpu.StaysUser)
    (hp : UserProcess u.kernel p) (henter : Entered u.kernel p t) (hslice : 4 ≤ t.sched.slice)
    (hmachine : Run (MachineStep cpu code v₀) t evs t')
    (htick : t.sched.tick + evs.countP MachineEvent.isTimer < 2 ^ 64)
    (hlively : Lively MachineEvent.isTimer evs)
    (hturns : (t.sched.runQueue.length + 1) * t.sched.slice ≤ evs.countP MachineEvent.isTimer) :
    ∀ c ∈ calls, c.2 ≠ 0 → t'.printed c.2 = calledLine (u.kernel.procs c.2).pid ::
      if c.1 = [] then []
      else [if 0xFF ∈ c.1.take 255 then uptoEof (c.1.take 255) else c.1.take 255 ++ [ch '\n']] := by
  intro c hc hne
  obtain ⟨hi, hprepared⟩ := Prepared.run hb hl₀ hl hcr3 hrun
  have hspaces := hi.2 hok
  obtain ⟨hhas, hlen, hstart⟩ := (hprepared hok).made c hc hne
  have hserved := (henter.inv hspaces hp).served (henter.inUserMode hspaces hp) hcode hstays
    (by omega) hmachine
    htick hlively hturns (henter.mem_runQueue hspaces hhas.process)
  have hshort : (c.1.take 255).length < intMax := by
    have := List.length_take_le 255 c.1
    simp only [intMax]
    omega
  have hline := messageLine_eq (fun h => hnul c hc (List.mem_of_mem_take h)) hshort
  rw [(hhas.prints hspaces hlen (hnul c hc) hstart hcode hcpu hp henter hmachine).1,
    programPrints_ended (hslice.trans hserved), hline]

/-- Two processes, which have printed their messages after as many turns as the queue is long, and
one. -/
theorem all_messages_printed_two : ∃ k t evs t', Entered k 0xC04000A0 t ∧
    Run (MachineStep messageCpu (bareCode fun _ => 0) ⟨fun _ => 0, fun _ => 0⟩) t evs t' ∧
    evs.countP MachineEvent.isTimer = (t.sched.runQueue.length + 1) * 4 ∧
    t'.printed 0xC04000A0 = [calledLine (k.procs 0xC04000A0).pid, [72, 105, 10]] ∧
    t'.printed 0xC0402150 = [calledLine (k.procs 0xC0402150).pid, [66, 121, 101, 10]] := by
  obtain ⟨k, k₁, k₂, t, hboot, hstep, hstep', hok, henter, htick, hfreq, -⟩ := two_messages_entered 2
  obtain ⟨hi, hprep⟩ := two_messages_prepared hboot hstep hstep' hok
  have hproc := (hprep.made _ List.mem_cons_self (by decide)).1.process
  obtain ⟨evs, t', hmachine, hlively, hcount⟩ : ∃ evs t',
      Run (MachineStep messageCpu (bareCode fun _ => 0) ⟨fun _ => 0, fun _ => 0⟩) t evs t' ∧
        Lively MachineEvent.isTimer evs ∧
          evs.countP MachineEvent.isTimer = (t.sched.runQueue.length + 1) * 4 :=
    lively_run (fun _ h => messageCpu_instr h (bareCode_kernelCode fun _ => 0)) (fun _ h => (h.timer 0).1)
      (henter.inv hi hproc) ((t.sched.runQueue.length + 1) * 4)
  have hslice : t.sched.slice = 4 := by
    rw [Sched.slice, hfreq]
    rfl
  have hlen : t.sched.runQueue.length ≤ 64 :=
    (List.length_filter_le _ _).trans (Nat.le_of_eq (slots_length _))
  have hmade : Run (MessageStep sampleImage) ⟨k, fun _ => False⟩
      [([72, 105], 0xC04000A0), ([66, 121, 101], 0xC0402150)] ⟨k₂, fun _ => False⟩ :=
    .cons hstep (.single hstep')
  have hall := all_messages_printed hboot pagedKernel_loaded sampleImage_linked rfl hmade hok (by decide)
    (bareCode_kernelCode _) messageCpu_executes messageCpu_staysUser hproc henter (by rw [hslice]) hmachine
    (by rw [htick, hcount]; omega) hlively (by rw [hslice, hcount])
  exact ⟨k₂, t, evs, t', henter, hmachine, hcount, hall _ List.mem_cons_self (by decide),
    hall _ (List.mem_cons_of_mem _ List.mem_cons_self) (by decide)⟩

end UserRun

end BrownieOS.Process
