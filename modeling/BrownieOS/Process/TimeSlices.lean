import BrownieOS.Process.OwnMachine
import BrownieOS.Process.RoundRobin

/-!
# Turns on the machine

The timer gives the processor to the next process after every `slice` ticks, whatever the
processes do. So every process that can run is given its turn, and no process is passed over.
-/
namespace BrownieOS.Process

open BrownieOS.Lib BrownieOS.Lib.Word32 BrownieOS.Core BrownieOS.Mm

/-- `slice` of `pit_handler`. -/
def Sched.slice (s : Sched) : Nat := s.pitCurFrequency * schedSliceSeconds % 2 ^ 64

/-- The process after `cur`, or `cur` itself when no other one can run. -/
def nextTurn (s : Sched) (cur : Nat) : Nat := if pickNextProc s cur = 0 then cur else pickNextProc s cur

/-- What an instruction of user mode leaves in `cs` is a selector of ring 3. -/
def UserAction.StaysUser : UserAction → Prop
  | .go regs => regs.cs &&& 0x3 = 0x3
  | .store regs _ => regs.cs &&& 0x3 = 0x3
  | .syscall regs => regs.cs &&& 0x3 = 0x3
  | .fault => True

/-- Only the kernel leaves user mode. -/
def Cpu.StaysUser (cpu : Cpu) : Prop :=
  ∀ regs v, regs.cs &&& 0x3 = 0x3 → (cpu regs v).StaysUser

/-- User mode runs a process of the queue. -/
structure Machine.InUserMode (t : Machine) : Prop where
  regs : t.regs.cs &&& 0x3 = 0x3
  current : Schedulable t.sched t.sched.currentProc

/-- What is fixed from `s` on: the table and who can run in it, and the length of a turn. -/
structure SameQueue (s s' : Sched) : Prop where
  list : s'.procList = s.procList
  schedulable : ∀ q, Schedulable s' q ↔ Schedulable s q
  frequency : s'.pitCurFrequency = s.pitCurFrequency

/-- The machine after `n` ticks from `s` on. -/
structure TurnsTaken (s : Sched) (n : Nat) (t : Machine) : Prop where
  user : t.InUserMode
  queue : SameQueue s t.sched
  tick : t.sched.tick = s.tick + n
  turn : t.sched.currentProc = (nextTurn s)^[(s.tick + n) / s.slice - s.tick / s.slice] s.currentProc

section TimeSlices

variable {image : KernelImage} {first : FrameMap} {k₀ k : Kernel} {s s' : Sched} {t t' : Machine}
  {Held : Nat → Prop} {cpu : Cpu} {code : HandlerCode Machine} {v₀ : Vectors} {stack : Nat → Byte}
  {p q n cur esp : Nat} {regs : IntRegs} {t'' : Machine} {u : UserState} {es : List UserEvent}
  {evs evs' : List MachineEvent}

/-! ## The choice -/

theorem SameQueue.refl (s : Sched) : SameQueue s s := ⟨rfl, fun _ => Iff.rfl, rfl⟩

theorem SameQueue.slice (h : SameQueue s s') : s'.slice = s.slice := by
  rw [Sched.slice, Sched.slice, h.frequency]

theorem SameQueue.pickNextProc (h : SameQueue s s') (cur : Nat) :
    Process.pickNextProc s' cur = Process.pickNextProc s cur := by
  have hslots : s'.slots = s.slots := by
    rw [Sched.slots, Sched.slots, h.list]
  have hstart : s'.startSlot cur = s.startSlot cur := by
    rw [Sched.startSlot, Sched.startSlot, h.list]
  have hwanted : s'.wanted cur = s.wanted cur := by
    funext p
    simp only [Sched.wanted, h.schedulable]
  rw [pickNextProc_eq_find, pickNextProc_eq_find, hslots, hstart, hwanted]

theorem SameQueue.nextTurn (h : SameQueue s s') (cur : Nat) :
    Process.nextTurn s' cur = Process.nextTurn s cur := by
  rw [Process.nextTurn, Process.nextTurn, h.pickNextProc]

/-- Saving a frame of user mode changes nothing in the queue. -/
theorem saveContext_sameQueue (hregs : regs.cs &&& 0x3 = 0x3) (hcur : Schedulable s s.currentProc) :
    SameQueue s (s.saveContext regs) := by
  refine ⟨rfl, fun q => ?_, rfl⟩
  by_cases hq : q = s.currentProc
  · rw [hq, Schedulable, saveContext_current]
    exact ⟨fun _ => hcur, fun h => ⟨h.1, h.2.1, hregs⟩⟩
  · rw [Schedulable, saveContext_other _ _ hq]
    rfl

theorem Runnable.schedulable (h : Runnable s cur p) : Schedulable s p := ⟨h.nonNull, h.running, h.user⟩

theorem schedulerSwitchProcess_current (s : Sched) (next : Nat) (regs : IntRegs) :
    (schedulerSwitchProcess s next regs).1.currentProc = if next = 0 then s.currentProc else next := by
  unfold schedulerSwitchProcess
  split
  · rename_i h
    rcases h with rfl | rfl
    · rfl
    · simp
  · rename_i h
    rw [if_neg fun hz => h (Or.inl hz)]

/-- A switch from user mode is to the next turn. -/
theorem schedulerSwitchNext_current (hregs : regs.cs &&& 0x3 = 0x3) :
    (schedulerSwitchNext s regs).1.currentProc = nextTurn (s.saveContext regs) s.currentProc := by
  unfold schedulerSwitchNext
  rw [if_neg (not_not.2 hregs)]
  exact schedulerSwitchProcess_current _ _ _

theorem schedulerSwitchNext_clock (s : Sched) (regs : IntRegs) :
    (schedulerSwitchNext s regs).1.tick = s.tick ∧
      (schedulerSwitchNext s regs).1.pitCurFrequency = s.pitCurFrequency := by
  unfold schedulerSwitchNext schedulerSwitchProcess
  split
  · exact ⟨rfl, rfl⟩
  · dsimp only
    split
    · exact ⟨rfl, rfl⟩
    · exact ⟨rfl, rfl⟩

/-- A tick that finds user mode. -/
theorem pitHandler_tick (hregs : regs.cs &&& 0x3 = 0x3) (hcur : Schedulable s s.currentProc)
    (htick : s.tick + 1 < 2 ^ 64) (hslice : 0 < s.slice) :
    (pitHandler s regs).1.tick = s.tick + 1 ∧ (pitHandler s regs).1.pitCurFrequency = s.pitCurFrequency ∧
      (pitHandler s regs).1.currentProc =
        if (s.tick + 1) % s.slice = 0 then nextTurn s s.currentProc else s.currentProc := by
  have hmod : (s.tick + 1) % 2 ^ 64 = s.tick + 1 := Nat.mod_eq_of_lt htick
  let s₁ := { s with tick := s.tick + 1 }
  have heq : pitHandler s regs =
      if (s.tick + 1) % s.slice = 0 then schedulerSwitchNext s₁ regs else (s₁, regs) := by
    unfold pitHandler
    dsimp only
    rw [hmod]
    by_cases hfull : (s.tick + 1) % s.slice = 0
    · rw [if_pos hfull]
      exact if_pos ⟨Nat.pos_iff_ne_zero.1 hslice, hregs, hfull⟩
    · rw [if_neg hfull]
      exact if_neg fun h => hfull h.2.2
  rw [heq]
  split
  · obtain ⟨hclock, hfreq⟩ := schedulerSwitchNext_clock s₁ regs
    have hsaved := saveContext_sameQueue hregs hcur
    have hqueue : SameQueue s (s₁.saveContext regs) := ⟨rfl, hsaved.schedulable, rfl⟩
    exact ⟨hclock, hfreq, (schedulerSwitchNext_current hregs).trans (hqueue.nextTurn _)⟩
  · exact ⟨rfl, rfl, rfl⟩

/-- What the timer leaves of the queue, and the frame it returns with. -/
theorem TimerResult.userMode {r : Sched × IntRegs} (h : TimerResult s regs r)
    (hregs : regs.cs &&& 0x3 = 0x3) (hcur : Schedulable s s.currentProc) :
    r.1.procList = s.procList ∧ (∀ q, Schedulable r.1 q ↔ Schedulable s q) ∧
      r.2.cs &&& 0x3 = 0x3 ∧ Schedulable s r.1.currentProc := by
  have hsaved := saveContext_sameQueue hregs hcur
  cases h with
  | @stay s' hnow hlist _ _ hprocs =>
    refine ⟨hlist, fun q => ?_, hregs, by rw [hnow]; exact hcur⟩
    rcases hprocs with h | h
    · rw [Schedulable, Schedulable, h]
    · rw [← hsaved.schedulable q, Schedulable, Schedulable, h]
  | @switch s' next hrun hnow hlist _ _ hprocs =>
    have hnext : (s.saveContext regs).procs next = s.procs next := saveContext_other _ _ hrun.other
    refine ⟨hlist, fun q => ?_, ?_, ?_⟩
    · rw [← hsaved.schedulable q, Schedulable, Schedulable, hprocs]
    · have huser := hrun.user
      rw [hnext] at huser
      exact huser
    · rw [hnow]
      exact (hsaved.schedulable next).1 hrun.schedulable

/-! ## Steps -/

/-- An instruction stays in user mode. -/
theorem MachineInv.instr_user (hi : MachineInv image first k Held t)
    (hcode : KernelCode code stack) (hcpu : cpu.StaysUser)
    (h : t.instr cpu code v₀ esp = some t') (hregs : t.regs.cs &&& 0x3 = 0x3) :
    t'.regs.cs &&& 0x3 = 0x3 := by
  have hstays := hcpu t.regs (userSight t.mem t.sched.cr3) hregs
  unfold Machine.instr at h
  split at h
  · rename_i regs hgo
    rw [hgo] at hstays
    obtain rfl := Option.some.inj h
    exact hstays
  · rename_i regs stores hstore
    rw [hstore] at hstays
    obtain ⟨m, -, rfl⟩ := Option.map_eq_some_iff.1 h
    exact hstays
  · rename_i regs hcall
    rw [hcall] at hstays
    rw [hi.syscall hcode] at h
    split at h
    · obtain rfl := Option.some.inj h
      exact hstays
    · obtain rfl := Option.some.inj h
      exact hstays
  · cases h

theorem TurnsTaken.instr (h : TurnsTaken s n t) (hi : MachineInv image first k Held t)
    (hcode : KernelCode code stack) (hcpu : cpu.StaysUser)
    (hinstr : t.instr cpu code v₀ esp = some t') : TurnsTaken s n t' := by
  obtain ⟨-, hsched, -⟩ := hi.instr hcode hinstr
  refine ⟨⟨hi.instr_user hcode hcpu hinstr h.user.regs, ?_⟩, ?_, ?_, ?_⟩
  · rw [hsched]
    exact h.user.current
  · rw [hsched]
    exact h.queue
  · rw [hsched]
    exact h.tick
  · rw [hsched]
    exact h.turn

/-- One tick: the turn passes on when a slice is full. -/
theorem TurnsTaken.timer (h : TurnsTaken s n t) (hslice : 0 < s.slice) (htick : s.tick + n + 1 < 2 ^ 64)
    (esp : Nat) : TurnsTaken s (n + 1) (t.timer esp) := by
  have hregs : (t.regs.frame esp 32 0).cs &&& 0x3 = 0x3 := h.user.regs
  obtain ⟨hlist, hschedulable, hregs', hcurrent⟩ :=
    (pitHandler_result t.sched (t.regs.frame esp 32 0)).userMode hregs h.user.current
  obtain ⟨hclock, hfreq, hturn⟩ := pitHandler_tick hregs h.user.current (by rw [h.tick]; exact htick)
    (by rw [h.queue.slice]; exact hslice)
  refine ⟨⟨hregs', (hschedulable _).2 hcurrent⟩, ⟨hlist.trans h.queue.list, fun q => ?_, ?_⟩, ?_, ?_⟩
  · exact (hschedulable q).trans (h.queue.schedulable q)
  · exact hfreq.trans h.queue.frequency
  · exact hclock.trans (by rw [h.tick, Nat.add_assoc])
  · refine hturn.trans ?_
    rw [h.queue.slice, h.tick, h.queue.nextTurn, h.turn, ← Nat.add_assoc]
    have hstart : s.tick / s.slice ≤ (s.tick + n) / s.slice := Nat.div_le_div_right (Nat.le_add_right _ _)
    rcases succ_div_mod hslice (s.tick + n) with ⟨hdiv, hmod⟩ | ⟨-, hdiv, hmod⟩
    · rw [if_neg (by omega), hdiv]
    · rw [if_pos hmod, hdiv, Nat.sub_add_comm hstart, Function.iterate_succ_apply']

/-! ## Runs -/

theorem TurnsTaken.start (h : t.InUserMode) : TurnsTaken t.sched 0 t := by
  refine ⟨h, .refl _, rfl, ?_⟩
  rw [Nat.add_zero, Nat.sub_self]
  rfl

/-- Who has the processor after any run, by the ticks alone. -/
theorem TurnsTaken.run (hi : MachineInv image first k Held t) (h : t.InUserMode)
    (hcode : KernelCode code stack) (hcpu : cpu.StaysUser) (hslice : 0 < t.sched.slice)
    (hrun : Run (MachineStep cpu code v₀) t evs t')
    (htick : t.sched.tick + evs.countP MachineEvent.isTimer < 2 ^ 64) :
    MachineInv image first k Held t' ∧ TurnsTaken t.sched (evs.countP MachineEvent.isTimer) t' := by
  have hall := hrun.invariant_trace (I := fun evs t' => MachineInv image first k Held t' ∧
    (t.sched.tick + evs.countP MachineEvent.isTimer < 2 ^ 64 →
      TurnsTaken t.sched (evs.countP MachineEvent.isTimer) t')) ?_ ⟨hi, fun _ => .start h⟩
  · exact ⟨hall.1, hall.2 htick⟩
  · intro evs t' e t'' ⟨hinv, hturns⟩ hstep
    cases e with
    | instr proc esp =>
      have hcount := countP_snoc_of_false (show MachineEvent.isTimer (.instr proc esp) = false from rfl) evs
      rw [hcount]
      exact ⟨(hinv.instr hcode hstep.2).1, fun hlt => (hturns hlt).instr hinv hcode hcpu hstep.2⟩
    | timer esp =>
      obtain rfl := hstep
      have hcount := countP_snoc_of_true (show MachineEvent.isTimer (.timer esp) = true from rfl) evs
      rw [hcount]
      exact ⟨(hinv.timer esp).1, fun hlt => (hturns (by omega)).timer hslice (by omega) esp⟩

/-! ## No process is passed over -/

theorem mem_runQueue : p ∈ s.runQueue ↔ (∃ i < maxProc, s.procList i = p) ∧ Schedulable s p := by
  simp [Sched.runQueue, Sched.slots]

theorem SameQueue.runQueue (h : SameQueue s s') : s'.runQueue = s.runQueue := by
  have hslots : s'.slots = s.slots := by
    rw [Sched.slots, Sched.slots, h.list]
  rw [Sched.runQueue, Sched.runQueue, hslots]
  simp only [h.schedulable]

/-- Turn after turn every process of the queue comes. -/
theorem nextTurn_reaches (hd : s.DistinctSlots) (hcur : cur ∈ s.runQueue) (hq : q ∈ s.runQueue) :
    ∃ j, 1 ≤ j ∧ j ≤ s.runQueue.length ∧ (nextTurn s)^[j] cur = q := by
  have hpos := List.length_pos_of_mem hcur
  by_cases hone : s.runQueue.length = 1
  · obtain ⟨p, hp⟩ := List.length_eq_one_iff.1 hone
    rw [hp] at hcur hq
    rw [List.mem_singleton.1 hcur, List.mem_singleton.1 hq]
    have hnone : pickNextProc s p = 0 :=
      (pickNextProc_first s p).1.2 fun x hx => by
        rw [hp] at hx
        exact List.mem_singleton.1 hx
    refine ⟨1, Nat.le_refl 1, hpos, ?_⟩
    rw [Function.iterate_one, nextTurn, if_pos hnone]
  · have hround : GoesRound (nextTurn s) s.runQueue := by
      intro i hi hlt
      have hpick := pickNextProc_goesRound hd (by omega) i hi hlt
      have hsched := (mem_runQueue.1 (List.getElem_mem hlt)).2
      rw [nextTurn, hpick, if_neg hsched.1]
    obtain ⟨i, hi, rfl⟩ := List.getElem_of_mem hcur
    obtain ⟨j, ⟨⟨h₁, hle⟩, hj⟩, -⟩ := (hround.meets_once (runQueue_nodup hd) hi q).1 hq
    exact ⟨j, h₁, hle, hj⟩

theorem MachineInv.distinctSlots (hi : MachineInv image first k Held t) : t.sched.DistinctSlots := by
  obtain ⟨kp, kernelProc, calls, ht⟩ := hi.spaces.spaces.table
  intro i hlt j hlt' hne he
  rw [hi.list] at hne he
  exact ht.distinct i j hlt hlt' hne he

theorem MachineInv.current_mem (hi : MachineInv image first k Held t) (h : t.InUserMode) :
    t.sched.currentProc ∈ t.sched.runQueue := by
  obtain ⟨-, i, hlt, hslot⟩ := hi.listed
  exact mem_runQueue.2 ⟨⟨i, hlt, by rw [hi.list]; exact hslot⟩, h.current⟩

/-- The steps of a run are taken in turns. -/
theorem Machine.InUserMode.inTurns (h : t.InUserMode) (hi : MachineInv image first k Held t)
    (hcode : KernelCode code stack) (hcpu : cpu.StaysUser) (hslice : 0 < t.sched.slice)
    (hrun : Run (MachineStep cpu code v₀) t evs t')
    (htick : t.sched.tick + evs.countP MachineEvent.isTimer < 2 ^ 64) :
    InTurns MachineEvent.isTimer (fun q => MachineEvent.isInstr q)
      (fun n => (nextTurn t.sched)^[n - t.sched.tick / t.sched.slice] t.sched.currentProc) t.sched.slice
      t.sched.tick evs := by
  intro as e bs heq he
  rw [heq] at hrun htick
  obtain ⟨u, hbefore, hafter⟩ := hrun.split
  obtain ⟨-, hturns⟩ := TurnsTaken.run hi h hcode hcpu hslice hbefore
    (Nat.lt_of_le_of_lt (Nat.add_le_add_left (countP_le_append _ _ _) _) htick)
  obtain ⟨u', hstep, -⟩ := hafter.cons_inv
  cases e with
  | timer esp => cases he
  | instr proc esp => exact beq_iff_eq.2 (hstep.1.trans hturns.turn)

/-- A turn for each process and one more. -/
theorem MachineInv.served (hi : MachineInv image first k Held t) (h : t.InUserMode)
    (hcode : KernelCode code stack) (hcpu : cpu.StaysUser) (hslice : 0 < t.sched.slice)
    (hrun : Run (MachineStep cpu code v₀) t evs t')
    (htick : t.sched.tick + evs.countP MachineEvent.isTimer < 2 ^ 64)
    (hlively : Lively MachineEvent.isTimer evs)
    (hturns : (t.sched.runQueue.length + 1) * t.sched.slice ≤ evs.countP MachineEvent.isTimer)
    (hq : q ∈ t.sched.runQueue) : t.sched.slice ≤ evs.countP (MachineEvent.isInstr q) := by
  obtain ⟨j, h₁, hle, hj⟩ := nextTurn_reaches hi.distinctSlots (hi.current_mem h) hq
  have hrounds : t.sched.tick / t.sched.slice + (t.sched.runQueue.length + 1) ≤
      (t.sched.tick + evs.countP MachineEvent.isTimer) / t.sched.slice := by
    rw [← Nat.add_mul_div_right _ _ hslice]
    exact Nat.div_le_div_right (Nat.add_le_add_left hturns _)
  have hused := (h.inTurns hi hcode hcpu hslice hrun htick).used hslice hlively
    (show t.sched.tick / t.sched.slice < t.sched.tick / t.sched.slice + j by omega) (by omega)
  rw [Nat.add_sub_cancel_left, hj] at hused
  exact hused

/-- Every user process is in the queue from the start. -/
theorem Entered.mem_runQueue (h : Entered k p t) (hi : UserSpaces image first Closed k Held) (hq : UserProcess k q) :
    q ∈ t.sched.runQueue := by
  obtain ⟨kp, kernelProc, calls, ht⟩ := hi.spaces.table
  obtain ⟨hne, i, h₀, hlt, hslot⟩ := hq
  have hentry := ht.entries i h₀ hlt (by rw [hslot]; exact hne)
  rw [hslot] at hentry
  have huser : (k.procs q).context.cs &&& 0x3 = 0x3 := by
    rw [hentry.user]
    rfl
  obtain ⟨esp0, tick, frequency, eflags, hsched⟩ := h.sched
  rw [hsched]
  refine Process.mem_runQueue.2 ⟨⟨i, hlt, hslot⟩, hne, ?_⟩
  by_cases hqp : q = p
  · rw [hqp] at hentry huser ⊢
    rw [procEnter_self]
    exact ⟨hentry.running, huser⟩
  · rw [procEnter_other hqp]
    exact ⟨hentry.running, huser⟩

theorem Entered.inUserMode (h : Entered k p t) (hi : UserSpaces image first Closed k Held) (hp : UserProcess k p) :
    t.InUserMode := by
  have hqueue := Process.mem_runQueue.1 (h.mem_runQueue hi hp)
  obtain ⟨esp0, tick, frequency, eflags, hsched⟩ := h.sched
  have hcur : t.sched.currentProc = p := by
    rw [hsched]
    rfl
  refine ⟨?_, ?_⟩
  · rw [h.cs]
    exact hqueue.2.2.2
  · rw [hcur]
    exact hqueue.2

theorem countingCpu_staysUser : countingCpu.StaysUser := fun _ _ h => h

/-- From `proc_enter` on, who has the processor is told by the number of ticks alone, whatever the
processes do: after every `slice` of them it is the turn of the next one in the queue, and the
queue stays. -/
theorem turns_taken (hb : Boot image k₀ k) (hl₀ : Loaded image k₀.pmm) (hl : image.Linked)
    (hcr3 : k₀.cr3 = image.dirPaddr) (hrun : Run (UserStep image) ⟨k, fun _ => False⟩ es u)
    (hok : u.kernel.pmm.failed = false) (hcode : KernelCode code stack)
    (hcpu : cpu.StaysUser) (hp : UserProcess u.kernel p) (henter : Entered u.kernel p t)
    (hslice : 0 < t.sched.slice) (hmachine : Run (MachineStep cpu code v₀) t evs t')
    (htick : t.sched.tick + evs.countP MachineEvent.isTimer < 2 ^ 64) :
    t'.sched.currentProc = (nextTurn t.sched)^[
        (t.sched.tick + evs.countP MachineEvent.isTimer) / t.sched.slice -
          t.sched.tick / t.sched.slice] p ∧
      t'.sched.runQueue = t.sched.runQueue := by
  have hspaces := (UserInv.run hb hl₀ hl hcr3 hrun).2 hok
  obtain ⟨-, hturns⟩ := TurnsTaken.run (henter.inv hspaces hp)
    (henter.inUserMode hspaces hp) hcode hcpu hslice
    hmachine htick
  have hcur : t.sched.currentProc = p := by
    obtain ⟨esp0, tick, frequency, eflags, hsched⟩ := henter.sched
    rw [hsched]
    rfl
  refine ⟨?_, hturns.queue.runQueue⟩
  rw [hturns.turn, hcur]

/-- The second turn is that of the next process. -/
theorem turns_taken_two : ∃ t evs t',
    Run (MachineStep countingCpu (bareCode fun _ => 0) ⟨fun _ => 0, fun _ => 0⟩) t evs t' ∧
    evs.countP MachineEvent.isTimer = 2 ∧ t'.sched.currentProc = nextTurn t.sched 0xC04000A0 := by
  obtain ⟨k, k₂, t, hboot, hrun, hok, hproc, henter, htick, hfreq⟩ := two_entered
  obtain ⟨evs, t', hmachine, -, hcount⟩ :=
    countingCpu_runs (bareCode fun _ => 0) ⟨fun _ => 0, fun _ => 0⟩ t 2
  have hslice : t.sched.slice = 2 := by
    rw [Sched.slice, hfreq]
    rfl
  have hturn := (turns_taken hboot pagedKernel_loaded sampleImage_linked rfl hrun hok
    (bareCode_kernelCode _) countingCpu_staysUser hproc henter
    (by rw [hslice]; decide) hmachine (by rw [htick, hcount]; decide)).1
  rw [htick, hcount, hslice] at hturn
  exact ⟨t, evs, t', hmachine, hcount, hturn⟩

/-- No user process is passed over: in any stretch of a run with a turn for each process of the
queue and one more, each of them is given an instruction for every tick of a slice, if only
something is run between any two ticks. -/
theorem processes_served (hb : Boot image k₀ k) (hl₀ : Loaded image k₀.pmm) (hl : image.Linked)
    (hcr3 : k₀.cr3 = image.dirPaddr) (hrun : Run (UserStep image) ⟨k, fun _ => False⟩ es u)
    (hok : u.kernel.pmm.failed = false) (hcode : KernelCode code stack)
    (hcpu : cpu.StaysUser) (hp : UserProcess u.kernel p) (henter : Entered u.kernel p t)
    (hslice : 0 < t.sched.slice) (hmachine : Run (MachineStep cpu code v₀) t evs t')
    (hstretch : Run (MachineStep cpu code v₀) t' evs' t'')
    (htick : t.sched.tick + (evs ++ evs').countP MachineEvent.isTimer < 2 ^ 64)
    (hlively : Lively MachineEvent.isTimer evs')
    (hturns : (t.sched.runQueue.length + 1) * t.sched.slice ≤ evs'.countP MachineEvent.isTimer)
    (hq : UserProcess u.kernel q) : t.sched.slice ≤ evs'.countP (MachineEvent.isInstr q) := by
  have hspaces := (UserInv.run hb hl₀ hl hcr3 hrun).2 hok
  rw [List.countP_append] at htick
  obtain ⟨hinv, htaken⟩ := TurnsTaken.run (henter.inv hspaces hp) (henter.inUserMode hspaces hp) hcode hcpu
    hslice hmachine (by omega)
  have hqueue := htaken.queue.runQueue
  have hmem := henter.mem_runQueue hspaces hq
  rw [← hqueue] at hmem hturns
  rw [← htaken.queue.slice] at hslice hturns ⊢
  exact hinv.served htaken.user hcode hcpu hslice hstretch (by rw [htaken.tick]; omega) hlively hturns hmem

/-- The first of two processes is served. -/
theorem processes_served_two : ∃ t evs t',
    Run (MachineStep countingCpu (bareCode fun _ => 0) ⟨fun _ => 0, fun _ => 0⟩) t evs t' ∧
    evs.countP MachineEvent.isTimer = (t.sched.runQueue.length + 1) * 2 ∧
    2 ≤ evs.countP (MachineEvent.isInstr 0xC04000A0) := by
  obtain ⟨k, k₂, t, hboot, hrun, hok, hproc, henter, htick, hfreq⟩ := two_entered
  obtain ⟨evs, t', hmachine, hlively, hcount⟩ :=
    countingCpu_runs (bareCode fun _ => 0) ⟨fun _ => 0, fun _ => 0⟩ t ((t.sched.runQueue.length + 1) * 2)
  have hslice : t.sched.slice = 2 := by
    rw [Sched.slice, hfreq]
    rfl
  have hlen : t.sched.runQueue.length ≤ 64 :=
    (List.length_filter_le _ _).trans (Nat.le_of_eq (slots_length _))
  have hserved := processes_served hboot pagedKernel_loaded sampleImage_linked rfl hrun hok
    (bareCode_kernelCode _) countingCpu_staysUser hproc
    henter (by rw [hslice]; decide) (.nil t) hmachine (by rw [List.nil_append, htick, hcount]; omega) hlively
    (by rw [hslice, hcount]) hproc
  rw [hslice] at hserved
  exact ⟨t, evs, t', hmachine, hcount, hserved⟩

end TimeSlices

end BrownieOS.Process
