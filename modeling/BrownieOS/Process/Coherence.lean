import BrownieOS.Core.Syscall
import BrownieOS.Process.AllOrNothing
import BrownieOS.Process.Scheduler

/-!
# From boot to user mode: who runs, and where

A process that `create_proc` has made is entered, and interrupts follow. The current
process is always one of the table, and `CR3` and `TSS.ESP0` are its own. The kernel's
process stands in the table too; whether it can be chosen depends on what memory held
before it was made.
-/
namespace BrownieOS.Process

open BrownieOS.Lib BrownieOS.Core BrownieOS.Mm

/-- What the scheduler sees of the kernel's state. -/
def Kernel.sched (k : Kernel) (esp0 tick pitCurFrequency : Nat) : Sched where
  procs := k.procs
  procList := k.procList
  currentProc := k.currentProc
  cr3 := k.cr3
  esp0 := esp0
  tick := tick
  pitCurFrequency := pitCurFrequency

/-- The frame an interrupt delivers, with a system call's result in `eax`. -/
def Interrupt.frame : Interrupt → IntRegs
  | .timer regs => regs
  | .syscall regs eax => { regs with eax := eax }

/-- The frame belongs to the process: it is the one the process was interrupted with, or
holds what its last preemption saved, or, when it never ran, its first context. -/
def FrameOf (first : Sched) (r : SchedRun) (i : Interrupt) (p : Nat) (regs : IntRegs) : Prop :=
  if p = r.sched.currentProc then regs = i.frame
  else procContextFromRegs regs = keptContext first r.preempted p

/-- The machine runs in the address space and on the kernel stack of the current process,
which is a running process of the table. -/
structure Coherent (s : Sched) : Prop where
  cr3 : s.cr3 = kv2p (s.procs s.currentProc).pageDirectory
  esp0 : s.esp0 = (s.procs s.currentProc).kstackTop
  listed : ∃ i < maxProc, s.procList i = s.currentProc
  running : (s.procs s.currentProc).procstate = .running
  directory : (s.procs s.currentProc).pageDirectory ≠ 0

section Run

variable {image : KernelImage} {k₀ k k₁ : Kernel} {calls : List (CreateCall × Nat)} {s : Sched}
  {p eflags : Nat} {is : List Interrupt} {r : SchedRun}

theorem procEnter_self (s : Sched) (p eflags : Nat) : (procEnter s p eflags).procs p =
    { s.procs p with context := { (s.procs p).context with eflags := eflags ||| 0x200 } } :=
  Function.update_self _ _ _

theorem procEnter_other {q : Nat} (h : q ≠ p) : (procEnter s p eflags).procs q = s.procs q :=
  Function.update_of_ne h _ _

/-- A run's first state is the table's entry `p`, and later ones only switch to entries. -/
theorem schedRun_listed (hlisted : ∃ i < maxProc, s.procList i = p)
    (hrunning : (s.procs p).procstate = .running) (hne : p ≠ 0)
    (hrun : Run SchedStep ⟨procEnter s p eflags, fun _ => none⟩ is r) :
    (∃ i < maxProc, r.sched.procList i = r.sched.currentProc) ∧
      (r.sched.procs r.sched.currentProc).procstate = .running ∧ r.sched.currentProc ≠ 0 := by
  refine hrun.invariant (I := fun r => (∃ i < maxProc, r.sched.procList i = r.sched.currentProc) ∧
    (r.sched.procs r.sched.currentProc).procstate = .running ∧ r.sched.currentProc ≠ 0) ?_ ?_
  · intro r i r' hi hstep
    cases hstep
    cases i with
    | syscall regs eax => exact hi
    | timer regs =>
      have hres := pitHandler_result r.sched regs
      rw [SchedRun.interrupt]
      cases hpit : pitHandler r.sched regs with
      | mk s' regs' =>
        rw [hpit] at hres
        cases hres with
        | stay hcur hlist hcr3 hesp0 hprocs =>
          rw [hcur, hlist]
          refine ⟨hi.1, ?_, hi.2.2⟩
          rcases hprocs with h | h
          · rw [h]
            exact hi.2.1
          · rw [h, saveContext_current]
            exact hi.2.1
        | switch hrunnable hcur hlist hcr3 hesp0 hprocs =>
          rw [hcur, hlist, hprocs]
          exact ⟨hrunnable.listed, hrunnable.running, hrunnable.nonNull⟩
  · have hself : ((procEnter s p eflags).procs p).procstate = .running := by
      rw [procEnter_self]
      exact hrunning
    exact ⟨hlisted, hself, hne⟩

/-- The directory of an entry of the table is never NULL. -/
theorem TableInv.directory (hb : Booted image k₀ k)
    (hi : TableInv k.currentProc (k.procs k.currentProc) calls k₁) {i : Nat} (hlt : i < maxProc)
    (hne : k₁.procList i ≠ 0) : (k₁.procs (k₁.procList i)).pageDirectory ≠ 0 := by
  by_cases h0 : i = 0
  · have hdir := image.dirInside
    rw [h0, hi.kernelSlot, hi.kernelProc, hb.record]
    simp only [kernelRecord]
    omega
  · exact (hi.entries i (by omega) hlt hne).directory

/-- `proc_enter` and the scheduler write contexts only. -/
theorem SchedInv.pageDirectory (hi : SchedInv (procEnter s p eflags) r) (q : Nat) :
    (r.sched.procs q).pageDirectory = (s.procs q).pageDirectory := by
  have hr : (r.sched.procs q).pageDirectory = ((procEnter s p eflags).procs q).pageDirectory := by
    rw [← hi.fields q]
  rw [hr]
  by_cases hq : q = p
  · rw [hq, procEnter_self]
  · rw [procEnter_other hq]

variable {esp0 tick pitCurFrequency : Nat}

theorem coherent_of_run (hboot : Boot image k₀ k) (hcalls : Run (CreateStep image) k calls k₁)
    (hp : CreatedBy calls p)
    (hrun : Run SchedStep
      ⟨procEnter (k₁.sched esp0 tick pitCurFrequency) p eflags, fun _ => none⟩ is r) :
    Coherent r.sched := by
  have ht := TableInv.run hboot hcalls
  obtain ⟨i, hi₀, hlt, hslot⟩ := ht.created p hp
  have hentry := ht.entries i hi₀ hlt (by rw [hslot]; exact hp.1)
  rw [hslot] at hentry
  have hinv := schedRun_inv hrun
  obtain ⟨⟨j, hj, hcur⟩, hrunning, hne⟩ :=
    schedRun_listed ⟨i, hlt, hslot⟩ hentry.running hp.1 hrun
  obtain ⟨hcr3, hesp0⟩ := schedRun_addressSpace hrun
  refine ⟨hcr3, hesp0, ⟨j, hj, hcur⟩, hrunning, ?_⟩
  have hlist : k₁.procList j = r.sched.currentProc := by
    rw [← hcur, hinv.list]
    rfl
  rw [← hlist] at hne
  rw [hinv.pageDirectory, ← hlist]
  exact ht.directory hboot.booted hj hne

theorem frameOf_resumed (hrun : Run SchedStep ⟨procEnter s p eflags, fun _ => none⟩ is r)
    (i : Interrupt) :
    FrameOf (procEnter s p eflags) r i (r.interrupt i).sched.currentProc (r.resumed i) := by
  cases i with
  | syscall regs eax => exact (if_pos rfl).mpr rfl
  | timer regs =>
    have hres := pitHandler_result r.sched regs
    simp only [SchedRun.resumed, SchedRun.interrupt]
    cases hpit : pitHandler r.sched regs with
    | mk s' regs' =>
      rw [hpit] at hres
      cases hres with
      | stay hcur => exact (if_pos hcur).mpr rfl
      | switch hrunnable hcur =>
        rw [hcur, FrameOf, if_neg hrunnable.other, procContextFromRegs_toRegs]
        exact (schedRun_inv hrun).contexts _ hrunnable.other

/-- Address spaces are coherent. When a process that `create_proc` has made is entered, and
after every later interrupt, `CR3` and `TSS.ESP0` are those of the current process, a
running process of the table; the frame an interrupt returns with is that process's own;
and where the kernel's table pointers lead to the tables the hardware walks, the kernel's
check answers for the directory the hardware uses. -/
theorem address_space_coherent (hboot : Boot image k₀ k)
    (hcalls : Run (CreateStep image) k calls k₁) (hp : CreatedBy calls p)
    (hrun : Run SchedStep
      ⟨procEnter (k₁.sched esp0 tick pitCurFrequency) p eflags, fun _ => none⟩ is r) :
    Coherent r.sched ∧
      (∀ i, Coherent (r.interrupt i).sched ∧
        FrameOf (procEnter (k₁.sched esp0 tick pitCurFrequency) p eflags) r i
          (r.interrupt i).sched.currentProc (r.resumed i)) ∧
      ∀ m addr, MirrorsTables m (r.sched.procs r.sched.currentProc).pageDirectory →
        (userAddrAccessible m (some (r.sched.procs r.sched.currentProc)) addr = true ↔
          UserReachable m r.sched.cr3 addr) := by
  have hc := coherent_of_run hboot hcalls hp hrun
  refine ⟨hc, fun i => ?_, fun m addr hm => ?_⟩
  · exact ⟨coherent_of_run hboot hcalls hp (hrun.snoc (a := i) rfl), frameOf_resumed hrun i⟩
  · rw [hc.cr3]
    exact userAddrAccessible_iff hc.directory hm addr

/-- A slice of two processes ends: the second gets the processor. -/
theorem TwoMade.switches {k k₁ k₂ : Kernel} (h : TwoMade k k₁ k₂) :
    (pitHandler (procEnter (k₂.sched 0 1 1) 0xC04000A0 0) (userFrame 0x400123)).1.currentProc =
      0xC0402150 := by
  have ht := TableInv.run h.boot ((Run.single h.first).snoc h.second)
  have hd := h.boot.booted
  have hslot : k₂.procList 2 = 0xC0402150 := by
    rw [h.list]
    exact Function.update_self _ _ _
  have hfirst : k₂.procList 1 = 0xC04000A0 := by
    rw [h.list, Function.update_of_ne (by decide)]
    exact Function.update_self _ _ _
  have hentry := ht.entries 2 (by decide) (by decide) (by rw [hslot]; decide)
  rw [hslot] at hentry
  have hprocs : ∀ p, p ≠ 0xC04000A0 →
      ((procEnter (k₂.sched 0 1 1) 0xC04000A0 0).saveContext (userFrame 0x400123)).procs p = k₂.procs p :=
    fun p hp => (saveContext_other _ _ hp).trans (procEnter_other hp)
  refine pitHandler_only (by decide) (show 1 * schedSliceSeconds % 2 ^ 64 ≠ 0 by decide)
    (show (1 + 1) % 2 ^ 64 % (1 * schedSliceSeconds % 2 ^ 64) = 0 by decide)
    ⟨⟨2, by decide, hslot⟩, by decide, show 0xC0402150 ≠ 0xC04000A0 by decide, ?_, ?_⟩ fun p hp => ?_
  · rw [hprocs _ (by decide)]
    exact hentry.running
  · rw [hprocs _ (by decide), hentry.user]
    decide
  · -- the other slots hold the kernel's process, the current one or nothing
    obtain ⟨i, hi, hlist⟩ := hp.listed
    replace hlist : k₂.procList i = p := hlist
    have hother : p ≠ 0xC04000A0 := hp.other
    by_cases h0 : i = 0
    · rw [h0, ht.kernelSlot] at hlist
      have huser := hp.user
      rw [hprocs p hother, ← hlist, ht.kernelProc, hd.record] at huser
      have hzero : ¬ (0 : Nat) &&& 0x3 = 0x3 := by decide
      exact absurd huser hzero
    by_cases h1 : i = 1
    · rw [h1, hfirst] at hlist
      exact absurd hlist.symm hother
    by_cases h2 : i = 2
    · rw [h2, hslot] at hlist
      exact hlist.symm
    · rw [h.list, Function.update_of_ne h2, Function.update_of_ne h1, hd.table,
        Function.update_of_ne h0] at hlist
      exact absurd (hlist.symm.trans (if_pos hi)) hp.nonNull

/-- Two processes: the first is entered, the timer switches to the second, and a system
call of the second follows. -/
theorem address_space_coherent_two : ∃ k k₁ k₂ r, TwoMade k k₁ k₂ ∧
    Run SchedStep ⟨procEnter (k₂.sched 0 1 1) 0xC04000A0 0, fun _ => none⟩
      [.timer (userFrame 0x400123), .syscall (userFrame 0x400456) 0] r ∧
    r.sched.currentProc = 0xC0402150 ∧ Coherent r.sched := by
  obtain ⟨k, k₁, k₂, h⟩ := two_made
  have hcalls := (Run.single h.first).snoc h.second
  have hrun : Run SchedStep ⟨procEnter (k₂.sched 0 1 1) 0xC04000A0 0, fun _ => none⟩
    [.timer (userFrame 0x400123), .syscall (userFrame 0x400456) 0] _ := (Run.single rfl).snoc rfl
  exact ⟨k, k₁, k₂, _, h, hrun, h.switches, (address_space_coherent h.boot hcalls
    ⟨by decide, _, List.mem_cons_self, rfl⟩ hrun).1⟩

/-! ## The kernel's own process -/

/-- A process that is not current and whose saved `cs` is not a user's stays so. -/
theorem schedRun_kernelSide {q : Nat} (hne : q ≠ p) (hcs : (s.procs q).context.cs &&& 0x3 ≠ 0x3)
    (hrun : Run SchedStep ⟨procEnter s p eflags, fun _ => none⟩ is r) :
    r.sched.currentProc ≠ q ∧ (r.sched.procs q).context.cs &&& 0x3 ≠ 0x3 := by
  refine hrun.invariant (I := fun r => r.sched.currentProc ≠ q ∧
    (r.sched.procs q).context.cs &&& 0x3 ≠ 0x3) ?_ ?_
  · intro r i r' hi hstep
    cases hstep
    cases i with
    | syscall regs eax => exact hi
    | timer regs =>
      have hres := pitHandler_result r.sched regs
      have hsaved := saveContext_other r.sched regs (Ne.symm hi.1)
      rw [SchedRun.interrupt]
      cases hpit : pitHandler r.sched regs with
      | mk s' regs' =>
        rw [hpit] at hres
        cases hres with
        | stay hcur hlist hcr3 hesp0 hprocs =>
          rw [hcur]
          refine ⟨hi.1, ?_⟩
          rcases hprocs with h | h
          · rw [h]
            exact hi.2
          · rw [h, hsaved]
            exact hi.2
        | switch hrunnable hcur hlist hcr3 hesp0 hprocs =>
          rw [hcur, hprocs, hsaved]
          refine ⟨fun he => hi.2 ?_, hi.2⟩
          rw [← hsaved, ← he]
          exact hrunnable.user
  · have hself : ((procEnter s p eflags).procs q).context.cs &&& 0x3 ≠ 0x3 := by
      rw [procEnter_other hne]
      exact hcs
    exact ⟨Ne.symm hne, hself⟩

/-- The kernel process is never scheduled, when the block that the first `kmalloc` returns
did not hold a user's `cs` by chance: `kernel_proc_init` leaves the saved context as it
finds it. Then, in every run, whatever frame and tick a timer interrupt comes with, neither
is `pick_next_proc` about to return the kernel process nor is that process current. -/
theorem kernel_never_scheduled (hboot : Boot image k₀ k)
    (hcalls : Run (CreateStep image) k calls k₁) (hp : CreatedBy calls p)
    (hrun : Run SchedStep
      ⟨procEnter (k₁.sched esp0 tick pitCurFrequency) p eflags, fun _ => none⟩ is r)
    (hstale : (k₀.procs (Mm.kmalloc k₀.heap sizeofProc).2).context.cs &&& 0x3 ≠ 0x3) :
    (k₁.procs k.currentProc).pid = 0 ∧ r.sched.currentProc ≠ k.currentProc ∧
      ∀ regs now, pickNextProc ({ r.sched with tick := now }.saveContext regs)
        r.sched.currentProc ≠ k.currentProc := by
  have hd := hboot.booted
  have ht := TableInv.run hboot hcalls
  obtain ⟨i, hi₀, hlt, hslot⟩ := ht.created p hp
  have hne : k.currentProc ≠ p := by
    intro he
    have hzero := ht.distinct 0 i (by decide) hlt (by rw [ht.kernelSlot]; exact ht.kernelNonNull)
      (by rw [ht.kernelSlot, he, hslot])
    omega
  have hcs : ((k₁.sched esp0 tick pitCurFrequency).procs k.currentProc).context.cs &&& 0x3 ≠ 0x3 := by
    have hkept : k₁.procs k.currentProc = k.procs k.currentProc := ht.kernelProc
    rw [← hd.block] at hstale
    simp only [Kernel.sched, hkept, hd.record, kernelRecord]
    exact hstale
  obtain ⟨hcur, hside⟩ := schedRun_kernelSide hne hcs hrun
  refine ⟨by rw [ht.kernelProc, hd.record]; rfl, hcur, fun regs now hpick => ?_⟩
  rcases pickNextProc_spec ({ r.sched with tick := now }.saveContext regs) r.sched.currentProc with
    hrunnable | ⟨hnull, -⟩
  · rw [hpick] at hrunnable
    have huser := hrunnable.user
    rw [saveContext_other { r.sched with tick := now } regs (Ne.symm hcur)] at huser
    exact hside huser
  · exact hd.nonNull (hpick.symm.trans hnull)

theorem sampleKernel_creates : ∃ k k₁, Boot sampleImage (sampleKernel 0) k ∧
    Run (CreateStep sampleImage) k [(sampleCall, 0xC04000A0)] k₁ := by
  have hcreate : ((kernelProcInit sampleImage (procInit (sampleKernel 0))).bind fun k =>
      (createProc sampleImage k 0x400000 0 4096 0 .normal).map Prod.snd) = some 0xC04000A0 := by
    decide +kernel
  obtain ⟨k, hk, hmap⟩ := Option.bind_eq_some_iff.1 hcreate
  obtain ⟨⟨k₁, r⟩, hk₁, rfl⟩ := Option.map_eq_some_iff.1 hmap
  exact ⟨k, k₁, sampleKernel_boot hk, .single hk₁⟩

theorem kernel_never_scheduled_clean : ∃ k k₁,
    Boot sampleImage (sampleKernel 0) k ∧
    Run (CreateStep sampleImage) k [(sampleCall, 0xC04000A0)] k₁ ∧
    ∀ regs now, pickNextProc
      ({ procEnter (k₁.sched 0 1 1) 0xC04000A0 0 with tick := now }.saveContext regs) 0xC04000A0 ≠
        k.currentProc := by
  obtain ⟨k, k₁, hboot, hcalls⟩ := sampleKernel_creates
  exact ⟨k, k₁, hboot, hcalls, (kernel_never_scheduled hboot hcalls
    ⟨by decide, _, List.mem_singleton.2 rfl, rfl⟩ (.nil _) (by decide)).2.2⟩

/-- A heap that holds 3 where the first block's saved `cs` will be: with one user process,
the first slice ends with the choice of the kernel process. -/
theorem kernel_is_scheduled : ∃ k k₁,
    Boot sampleImage (sampleKernel 3) k ∧
    Run (CreateStep sampleImage) k [(sampleCall, 0xC04000A0)] k₁ ∧
    pickNextProc ((procEnter (k₁.sched 0 1 1) 0xC04000A0 0).saveContext (userFrame 0x400123))
      0xC04000A0 = k.currentProc ∧
    (pitHandler (procEnter (k₁.sched 0 1 1) 0xC04000A0 0) (userFrame 0x400123)).1.currentProc =
      k.currentProc ∧ (k₁.procs k.currentProc).pid = 0 := by
  have hcreate : ((kernelProcInit sampleImage (procInit (sampleKernel 3))).bind fun k =>
      (createProc sampleImage k 0x400000 0 4096 0 .normal).map fun made =>
        decide (made.2 = 0xC04000A0 ∧
          pickNextProc ((procEnter (made.1.sched 0 1 1) 0xC04000A0 0).saveContext
            (userFrame 0x400123)) 0xC04000A0 = k.currentProc ∧
          (pitHandler (procEnter (made.1.sched 0 1 1) 0xC04000A0 0)
            (userFrame 0x400123)).1.currentProc = k.currentProc ∧
          (made.1.procs k.currentProc).pid = 0)) = some true := by
    decide +kernel
  obtain ⟨k, hk, hmap⟩ := Option.bind_eq_some_iff.1 hcreate
  obtain ⟨⟨k₁, r⟩, hk₁, hall⟩ := Option.map_eq_some_iff.1 hmap
  obtain ⟨rfl, hpick, hpit, hpid⟩ := of_decide_eq_true hall
  exact ⟨k, k₁, sampleKernel_boot hk, .single hk₁, hpick, hpit, hpid⟩

end Run

end BrownieOS.Process
