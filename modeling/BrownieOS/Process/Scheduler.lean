import BrownieOS.Lib.Run
import BrownieOS.Process.Context

/-!
# The scheduler of `proc/scheduler.c`, driven by `drivers/pit.c`

The process table is a store of `proc_t` by address and the list of addresses. The
registers of the current process live in the interrupt frame, those of the others in
their saved contexts. A run is `proc_enter` followed by interrupts; what user mode does
in between shows in the frame the next interrupt delivers, which is any frame at all.
-/
namespace BrownieOS.Process

open BrownieOS.Lib BrownieOS.Mm

/-- The state the scheduler works on. -/
structure Sched where
  procs : Nat → Proc
  procList : Nat → Nat
  currentProc : Nat
  cr3 : Nat
  esp0 : Nat
  tick : Nat
  pitCurFrequency : Nat

abbrev schedSliceSeconds : Nat := 2

/-- The search of `pick_next_proc` for the index of `cur`; `none` stands for -1. -/
def findCurIdx (procList : Nat → Nat) (cur : Nat) : Nat → Nat → Option Nat
  | _, 0 => none
  | i, n + 1 => if procList i = cur then some i else findCurIdx procList cur (i + 1) n

/-- One pass of `pick_next_proc`, with `n` slots left from `i` on. -/
def pickScan (s : Sched) (cur : Nat) : Nat → Nat → Option Nat
  | _, 0 => none
  | i, n + 1 =>
    let p := s.procList i
    if p = 0 then pickScan s cur (i + 1) n
    else if p = cur then pickScan s cur (i + 1) n
    else if (s.procs p).procstate ≠ .running then pickScan s cur (i + 1) n
    else if (s.procs p).context.cs &&& 0x3 ≠ 0x3 then pickScan s cur (i + 1) n
    else some p

/-- `pick_next_proc`: from the slot after `cur`, then once more from the first. -/
def pickNextProc (s : Sched) (cur : Nat) : Nat :=
  let start := match findCurIdx s.procList cur 0 maxProc with
    | some i => i + 1
    | none => 0
  match pickScan s cur start (maxProc - start) with
  | some p => p
  | none =>
    match pickScan s cur 0 maxProc with
    | some p => p
    | none => 0

/-- `proc_context_from_regs(&current_proc->context, regs)`. -/
def Sched.saveContext (s : Sched) (regs : IntRegs) : Sched :=
  let current := { s.procs s.currentProc with context := procContextFromRegs regs }
  { s with procs := Function.update s.procs s.currentProc current }

/-- `scheduler_switch_process`: the state and the frame after the call. -/
def schedulerSwitchProcess (s : Sched) (next : Nat) (regs : IntRegs) : Sched × IntRegs :=
  if next = 0 ∨ next = s.currentProc then (s, regs)
  else
    let s := s.saveContext regs
    let s := { s with
      esp0 := (s.procs next).kstackTop
      cr3 := kv2p (s.procs next).pageDirectory
      currentProc := next }
    (s, procContextToRegs regs (s.procs next).context)

def schedulerSwitchNext (s : Sched) (regs : IntRegs) : Sched × IntRegs :=
  if regs.cs &&& 0x3 ≠ 0x3 then (s, regs)
  else
    let s := s.saveContext regs
    schedulerSwitchProcess s (pickNextProc s s.currentProc) regs

def pitHandler (s : Sched) (regs : IntRegs) : Sched × IntRegs :=
  let s := { s with tick := (s.tick + 1) % 2 ^ 64 }
  let slice := s.pitCurFrequency * schedSliceSeconds % 2 ^ 64
  if slice ≠ 0 ∧ regs.cs &&& 3 = 3 ∧ s.tick % slice = 0 then schedulerSwitchNext s regs
  else (s, regs)

/-- `proc_enter`, with the flags register it finds. -/
def procEnter (s : Sched) (p eflags : Nat) : Sched :=
  let context := { (s.procs p).context with eflags := eflags ||| 0x200 }
  { s with
    currentProc := p
    esp0 := (s.procs p).kstackTop
    cr3 := kv2p (s.procs p).pageDirectory
    procs := Function.update s.procs p { s.procs p with context := context } }

/-! ## Choosing the next process -/

/-- A process other than `cur` that `pick_next_proc` would take. -/
structure Runnable (s : Sched) (cur p : Nat) : Prop where
  listed : ∃ i < maxProc, s.procList i = p
  nonNull : p ≠ 0
  other : p ≠ cur
  running : (s.procs p).procstate = .running
  user : (s.procs p).context.cs &&& 0x3 = 0x3

theorem pickScan_some {s : Sched} {cur p : Nat} : ∀ n i, i + n ≤ maxProc →
    pickScan s cur i n = some p → Runnable s cur p := by
  intro n
  induction n with
  | zero => intro i _ h; simp [pickScan] at h
  | succ n ih =>
    intro i hi h
    rw [pickScan] at h
    split at h
    · exact ih (i + 1) (by omega) h
    split at h
    · exact ih (i + 1) (by omega) h
    split at h
    · exact ih (i + 1) (by omega) h
    split at h
    · exact ih (i + 1) (by omega) h
    · rename_i h0 hcur hstate huser
      obtain rfl := Option.some.inj h
      exact ⟨⟨i, by omega, rfl⟩, h0, hcur, not_not.mp hstate, not_not.mp huser⟩

theorem pickScan_none {s : Sched} {cur : Nat} : ∀ n i, pickScan s cur i n = none →
    ∀ k, i ≤ k → k < i + n → ¬ Runnable s cur (s.procList k) := by
  intro n
  induction n with
  | zero => intro i _ k h₁ h₂; omega
  | succ n ih =>
    intro i h k h₁ h₂ hrun
    by_cases hk : k = i
    · subst hk
      have hgo : pickScan s cur k (n + 1) = some (s.procList k) := by
        simp [pickScan, hrun.nonNull, hrun.other, hrun.running, hrun.user]
      rw [hgo] at h
      simp at h
    · have hrest : pickScan s cur (i + 1) n = none := by
        rw [pickScan] at h
        split at h
        · exact h
        split at h
        · exact h
        split at h
        · exact h
        split at h
        · exact h
        · simp at h
      exact ih (i + 1) hrest k (by omega) (by omega) hrun

theorem findCurIdx_lt {procList : Nat → Nat} {cur k : Nat} : ∀ n i,
    findCurIdx procList cur i n = some k → k + 1 ≤ i + n := by
  intro n
  induction n with
  | zero => intro i h; simp [findCurIdx] at h
  | succ n ih =>
    intro i h
    rw [findCurIdx] at h
    split at h
    · obtain rfl := Option.some.inj h
      omega
    · have := ih (i + 1) h
      omega

/-- The choice is a runnable process, and NULL exactly when there is none. -/
theorem pickNextProc_spec (s : Sched) (cur : Nat) :
    Runnable s cur (pickNextProc s cur) ∨
      pickNextProc s cur = 0 ∧ ∀ p, ¬ Runnable s cur p := by
  have hstart : ∀ start, start ≤ maxProc → ∀ p,
      pickScan s cur start (maxProc - start) = some p → Runnable s cur p :=
    fun start hle p h => pickScan_some _ _ (by omega) h
  have hle : (match findCurIdx s.procList cur 0 maxProc with
      | some i => i + 1
      | none => 0) ≤ maxProc := by
    split
    · rename_i k hk
      have := findCurIdx_lt _ _ hk
      simpa using this
    · exact Nat.zero_le _
  rw [pickNextProc]
  split
  · rename_i p hp
    exact Or.inl (hstart _ hle p hp)
  · split
    · rename_i p hp
      exact Or.inl (pickScan_some _ _ (by omega) hp)
    · rename_i hnone
      refine Or.inr ⟨rfl, fun p hp => ?_⟩
      obtain ⟨i, hi, rfl⟩ := hp.listed
      exact pickScan_none _ _ hnone i (Nat.zero_le _) (by omega) hp

/-! ## One timer interrupt -/

/-- The two things a timer interrupt can do: leave the frame and the current process
alone, perhaps with the frame saved; or save the frame and switch. -/
inductive TimerResult (s : Sched) (regs : IntRegs) : Sched × IntRegs → Prop
  | stay {s' : Sched} : s'.currentProc = s.currentProc → s'.procList = s.procList →
      s'.cr3 = s.cr3 → s'.esp0 = s.esp0 →
      (s'.procs = s.procs ∨ s'.procs = (s.saveContext regs).procs) → TimerResult s regs (s', regs)
  | switch {s' : Sched} {next : Nat} : Runnable (s.saveContext regs) s.currentProc next →
      s'.currentProc = next → s'.procList = s.procList →
      s'.cr3 = kv2p (s.procs next).pageDirectory → s'.esp0 = (s.procs next).kstackTop →
      s'.procs = (s.saveContext regs).procs →
      TimerResult s regs (s', procContextToRegs regs (s.procs next).context)

theorem saveContext_saveContext (s : Sched) (regs : IntRegs) :
    (s.saveContext regs).saveContext regs = s.saveContext regs := by
  simp [Sched.saveContext]

theorem saveContext_other (s : Sched) (regs : IntRegs) {p : Nat} (h : p ≠ s.currentProc) :
    (s.saveContext regs).procs p = s.procs p := Function.update_of_ne h _ _

/-- What the save keeps of the current process. -/
theorem saveContext_current (s : Sched) (regs : IntRegs) :
    (s.saveContext regs).procs s.currentProc =
      { s.procs s.currentProc with context := procContextFromRegs regs } :=
  Function.update_self _ _ _

/-- The code saves the frame twice on its way; the second save changes nothing. -/
theorem schedulerSwitchNext_result (s : Sched) (regs : IntRegs) :
    TimerResult s regs (schedulerSwitchNext s regs) := by
  rw [schedulerSwitchNext]
  split
  · exact .stay rfl rfl rfl rfl (Or.inl rfl)
  · have hcur : (s.saveContext regs).currentProc = s.currentProc := rfl
    rcases pickNextProc_spec (s.saveContext regs) s.currentProc with hrun | ⟨hnull, -⟩
    · have hother := saveContext_other s regs hrun.other
      rw [schedulerSwitchProcess, hcur, if_neg (not_or.mpr ⟨hrun.nonNull, hrun.other⟩)]
      simp only [saveContext_saveContext, hother]
      exact .switch hrun rfl rfl rfl rfl rfl
    · rw [schedulerSwitchProcess, hcur, if_pos (Or.inl hnull)]
      exact .stay rfl rfl rfl rfl (Or.inr rfl)

theorem pitHandler_result (s : Sched) (regs : IntRegs) :
    TimerResult s regs (pitHandler s regs) := by
  rw [pitHandler]
  split
  · obtain ⟨s₁, hs₁⟩ : ∃ s₁ : Sched, s₁ = { s with tick := (s.tick + 1) % 2 ^ 64 } := ⟨_, rfl⟩
    rw [← hs₁]
    have hres := schedulerSwitchNext_result s₁ regs
    cases hnext : schedulerSwitchNext s₁ regs with
    | mk s' regs' =>
      rw [hnext, hs₁] at hres
      cases hres with
      | stay h₁ h₂ h₃ h₄ h₅ => exact .stay h₁ h₂ h₃ h₄ h₅
      | switch h₁ h₂ h₃ h₄ h₅ h₆ =>
        exact .switch ⟨h₁.listed, h₁.nonNull, h₁.other, h₁.running, h₁.user⟩ h₂ h₃ h₄ h₅ h₆
  · exact .stay rfl rfl rfl rfl (Or.inl rfl)

/-- Where a slice ends and one other process can run, that one gets the processor. -/
theorem pitHandler_only {s : Sched} {regs : IntRegs} {q : Nat} (hregs : regs.cs &&& 3 = 3)
    (hslice : s.pitCurFrequency * schedSliceSeconds % 2 ^ 64 ≠ 0)
    (hend : (s.tick + 1) % 2 ^ 64 % (s.pitCurFrequency * schedSliceSeconds % 2 ^ 64) = 0)
    (hq : Runnable (s.saveContext regs) s.currentProc q)
    (honly : ∀ p, Runnable (s.saveContext regs) s.currentProc p → p = q) :
    (pitHandler s regs).1.currentProc = q := by
  obtain ⟨s₁, hs₁⟩ : ∃ s₁ : Sched, s₁ = { s with tick := (s.tick + 1) % 2 ^ 64 } := ⟨_, rfl⟩
  have hsame : ∀ p, Runnable (s₁.saveContext regs) s₁.currentProc p ↔
      Runnable (s.saveContext regs) s.currentProc p := by
    intro p
    rw [hs₁]
    exact ⟨fun h => ⟨h.listed, h.nonNull, h.other, h.running, h.user⟩,
      fun h => ⟨h.listed, h.nonNull, h.other, h.running, h.user⟩⟩
  have hpick : pickNextProc (s₁.saveContext regs) s₁.currentProc = q := by
    rcases pickNextProc_spec (s₁.saveContext regs) s₁.currentProc with hrun | ⟨-, hnone⟩
    · exact honly _ ((hsame _).1 hrun)
    · exact absurd ((hsame q).2 hq) (hnone q)
  have hcall : pitHandler s regs = schedulerSwitchNext s₁ regs := by
    rw [pitHandler, if_pos ⟨hslice, hregs, hend⟩, hs₁]
  have hother : q ≠ s₁.currentProc := ((hsame q).2 hq).other
  rw [hcall, schedulerSwitchNext, if_neg (not_not.2 hregs)]
  dsimp only [Sched.saveContext] at hpick ⊢
  rw [hpick, schedulerSwitchProcess, if_neg (not_or.2 ⟨hq.nonNull, hother⟩)]

/-! ## Runs -/

/-- The scheduler, and for each process the frame of its last preemption. -/
structure SchedRun where
  sched : Sched
  preempted : Nat → Option IntRegs

/-- An interrupt and the frame it delivers. A system call leaves the scheduler alone
and puts its result into `eax`. -/
inductive Interrupt where
  | timer (regs : IntRegs)
  | syscall (regs : IntRegs) (eax : Nat)

/-- The frame with which the interrupt returns. -/
def SchedRun.resumed (r : SchedRun) : Interrupt → IntRegs
  | .timer regs => (pitHandler r.sched regs).2
  | .syscall regs eax => { regs with eax := eax }

/-- A process is preempted when a timer interrupt makes another one current. -/
def SchedRun.interrupt (r : SchedRun) : Interrupt → SchedRun
  | .timer regs =>
    let s' := (pitHandler r.sched regs).1
    ⟨s', if s'.currentProc = r.sched.currentProc then r.preempted
      else Function.update r.preempted r.sched.currentProc (some regs)⟩
  | .syscall _ _ => r

def SchedStep (r : SchedRun) (i : Interrupt) (r' : SchedRun) : Prop := r' = r.interrupt i

/-- The context a process that is not current is kept with: that of its last
preemption, or the one it had at first. -/
def keptContext (first : Sched) (preempted : Nat → Option IntRegs) (p : Nat) : ProcContext :=
  match preempted p with
  | some regs => procContextFromRegs regs
  | none => (first.procs p).context

/-- The run invariant: what the table holds of the processes that are not current, and
that the address space and the kernel stack are the current one's. -/
structure SchedInv (first : Sched) (r : SchedRun) : Prop where
  list : r.sched.procList = first.procList
  fields : ∀ p, { r.sched.procs p with context := (first.procs p).context } = first.procs p
  contexts : ∀ p, p ≠ r.sched.currentProc →
    (r.sched.procs p).context = keptContext first r.preempted p
  cr3 : r.sched.cr3 = kv2p (r.sched.procs r.sched.currentProc).pageDirectory
  esp0 : r.sched.esp0 = (r.sched.procs r.sched.currentProc).kstackTop

theorem SchedInv.start (s : Sched) (p eflags : Nat) :
    SchedInv (procEnter s p eflags) ⟨procEnter s p eflags, fun _ => none⟩ where
  list := rfl
  fields := fun _ => rfl
  contexts := fun _ _ => rfl
  cr3 := by simp [procEnter]
  esp0 := by simp [procEnter]

theorem SchedInv.timer {first : Sched} {r : SchedRun} (hi : SchedInv first r) (regs : IntRegs) :
    SchedInv first (r.interrupt (.timer regs)) := by
  have hres := pitHandler_result r.sched regs
  rw [SchedRun.interrupt]
  cases hpit : pitHandler r.sched regs with
  | mk s' regs' =>
    rw [hpit] at hres
    have hfields : ∀ p, { (r.sched.saveContext regs).procs p with
        context := (first.procs p).context } = first.procs p := by
      intro p
      by_cases hp : p = r.sched.currentProc
      · rw [hp, saveContext_current]
        exact hi.fields _
      · rw [saveContext_other _ _ hp]
        exact hi.fields p
    cases hres with
    | stay hcur hlist hcr3 hesp0 hprocs =>
      simp only [hcur, ↓reduceIte]
      have hother : ∀ p, p ≠ r.sched.currentProc → s'.procs p = r.sched.procs p := by
        intro p hp
        rcases hprocs with h | h
        · rw [h]
        · rw [h, saveContext_other _ _ hp]
      have hsame : (s'.procs r.sched.currentProc).pageDirectory =
            (r.sched.procs r.sched.currentProc).pageDirectory ∧
          (s'.procs r.sched.currentProc).kstackTop =
            (r.sched.procs r.sched.currentProc).kstackTop := by
        rcases hprocs with h | h
        · rw [h]; exact ⟨rfl, rfl⟩
        · rw [h, saveContext_current]; exact ⟨rfl, rfl⟩
      refine ⟨hlist.trans hi.list, fun p => ?_, fun p hp => ?_, ?_, ?_⟩
      · rcases hprocs with h | h
        · simp only [h]; exact hi.fields p
        · simp only [h]; exact hfields p
      · rw [hcur] at hp
        simp only [hother p hp]
        exact hi.contexts p hp
      · simp only [hcr3, hcur, hsame.1]
        exact hi.cr3
      · simp only [hesp0, hcur, hsame.2]
        exact hi.esp0
    | @switch _ next hrun hcur hlist hcr3 hesp0 hprocs =>
      have hne : s'.currentProc ≠ r.sched.currentProc := by
        rw [hcur]
        exact hrun.other
      simp only [if_neg hne]
      refine ⟨hlist.trans hi.list, fun p => ?_, fun p hp => ?_, ?_, ?_⟩
      · simp only [hprocs]
        exact hfields p
      · simp only [hprocs]
        by_cases hold : p = r.sched.currentProc
        · rw [hold, saveContext_current, keptContext, Function.update_self]
        · rw [saveContext_other _ _ hold, keptContext, Function.update_of_ne hold]
          exact hi.contexts p hold
      · simp only [hcr3, hcur, hprocs, saveContext_other _ _ hrun.other]
      · simp only [hesp0, hcur, hprocs, saveContext_other _ _ hrun.other]

theorem schedRun_inv {s : Sched} {p eflags : Nat} {is : List Interrupt} {r : SchedRun}
    (hrun : Run SchedStep ⟨procEnter s p eflags, fun _ => none⟩ is r) :
    SchedInv (procEnter s p eflags) r := by
  refine hrun.invariant (I := SchedInv (procEnter s p eflags)) ?_ (.start s p eflags)
  rintro t i _ hi rfl
  cases i with
  | timer regs => exact hi.timer regs
  | syscall regs eax => exact hi

/-- All along a run `CR3` and `TSS.ESP0` are those of the current process. -/
theorem schedRun_addressSpace {s : Sched} {p eflags : Nat} {is : List Interrupt} {r : SchedRun}
    (hrun : Run SchedStep ⟨procEnter s p eflags, fun _ => none⟩ is r) :
    r.sched.cr3 = kv2p (r.sched.procs r.sched.currentProc).pageDirectory ∧
      r.sched.esp0 = (r.sched.procs r.sched.currentProc).kstackTop :=
  ⟨(schedRun_inv hrun).cr3, (schedRun_inv hrun).esp0⟩

/-- The context switch loses nothing. From `proc_enter` on, whatever the process table,
whatever user mode does and whichever interrupts arrive: a timer interrupt that makes
another process current returns with the frame of that process's last preemption, or
with the context stored for it when it never ran; it keeps `int_no` and `err_code` and
the saved context of every process but the preempted one. When it makes no other
process current, in particular when none is runnable, the frame is unchanged. -/
theorem context_switch_lossless {s : Sched} {p eflags : Nat} {is : List Interrupt} {r : SchedRun}
    (hrun : Run SchedStep ⟨procEnter s p eflags, fun _ => none⟩ is r) (regs : IntRegs) :
    let resumed := r.resumed (.timer regs)
    let r' := r.interrupt (.timer regs)
    let next := r'.sched.currentProc
    (next ≠ r.sched.currentProc →
      (∀ last, r.preempted next = some last →
        procContextFromRegs resumed = procContextFromRegs last) ∧
      (r.preempted next = none →
        procContextFromRegs resumed = ((procEnter s p eflags).procs next).context) ∧
      r'.preempted r.sched.currentProc = some regs) ∧
    (resumed.intNo = regs.intNo ∧ resumed.errCode = regs.errCode) ∧
    (∀ q, q ≠ r.sched.currentProc → r'.sched.procs q = r.sched.procs q) ∧
    (next = r.sched.currentProc → resumed = regs) ∧
    ((∀ q, ¬ Runnable r.sched r.sched.currentProc q) →
      next = r.sched.currentProc ∧ resumed = regs) := by
  have hi := schedRun_inv hrun
  have hres := pitHandler_result r.sched regs
  simp only [SchedRun.resumed, SchedRun.interrupt]
  cases hpit : pitHandler r.sched regs with
  | mk s' regs' =>
    rw [hpit] at hres
    cases hres with
    | stay hcur hlist hcr3 hesp0 hprocs =>
      refine ⟨fun h => absurd hcur h, ⟨rfl, rfl⟩, fun q hq => ?_, fun _ => rfl, fun _ => ⟨hcur, rfl⟩⟩
      rcases hprocs with h | h
      · simp only [h]
      · simp only [h, saveContext_other _ _ hq]
    | @switch _ next hrunnable hcur hlist hcr3 hesp0 hprocs =>
      have hkept := hi.contexts next hrunnable.other
      simp only [hcur, if_neg hrunnable.other, procContextFromRegs_toRegs, Function.update_self]
      refine ⟨fun _ => ⟨fun last hlast => ?_, fun hnone => ?_, trivial⟩, ⟨rfl, rfl⟩, fun q hq => ?_,
        fun h => absurd h hrunnable.other, fun hno => ?_⟩
      · rw [hkept, keptContext, hlast]
      · rw [hkept, keptContext, hnone]
      · simp only [hprocs, saveContext_other _ _ hq]
      · have hsame := saveContext_other r.sched regs hrunnable.other
        refine absurd ⟨hrunnable.listed, hrunnable.nonNull, hrunnable.other, ?_, ?_⟩ (hno next)
        · rw [← hsame]; exact hrunnable.running
        · rw [← hsame]; exact hrunnable.user

/-- A frame that user mode was interrupted with at `eip`. -/
def userFrame (eip : Nat) : IntRegs :=
  ⟨1, 2, 3, 4, 5, 6, 7, 8, 32, 0, eip, 0x1B, 0x202, 0xBFFFFFE0, 0x23⟩

/-- Two processes, in slots 1 and 2, and a timer that slices at every second tick. -/
def twoProcs : Sched where
  procs := fun p => ⟨p, 0xC0800000 + p, ⟨0, 0, 0, 0, 0, 0, 0, 0, 0x400000, 0x1B, 0x202, 0xBFFFFFE0, 0x23⟩,
    .running, .normal, 0, 0, 0xBFFFFFF0, 4096, 0xC0600000 + p, 8192, 0xC0600000, 0x800000 + p⟩
  procList := fun i => if i = 1 then 0xC0400010 else if i = 2 then 0xC0400110 else 0
  currentProc := 0
  cr3 := 0
  esp0 := 0
  tick := 1
  pitCurFrequency := 1

theorem context_switch_lossless_two_procs : ∃ r : SchedRun,
    Run SchedStep ⟨procEnter twoProcs 0xC0400010 0, fun _ => none⟩
      [.timer (userFrame 0x400123), .timer (userFrame 0x400456)] r ∧
    (r.interrupt (.timer (userFrame 0x400789))).sched.currentProc = 0xC0400010 ∧
    procContextFromRegs (r.resumed (.timer (userFrame 0x400789))) =
      procContextFromRegs (userFrame 0x400123) := by
  obtain ⟨r, hr⟩ : ∃ r : SchedRun, r =
      ((⟨procEnter twoProcs 0xC0400010 0, fun _ => none⟩ : SchedRun).interrupt
        (.timer (userFrame 0x400123))).interrupt (.timer (userFrame 0x400456)) := ⟨_, rfl⟩
  have hrun : Run SchedStep ⟨procEnter twoProcs 0xC0400010 0, fun _ => none⟩
      [.timer (userFrame 0x400123), .timer (userFrame 0x400456)] r := .cons rfl (.single hr)
  have hnext : (r.interrupt (.timer (userFrame 0x400789))).sched.currentProc = 0xC0400010 := by
    rw [hr]
    decide +kernel
  have hother : r.sched.currentProc = 0xC0400110 := by
    rw [hr]
    decide +kernel
  have hlast : r.preempted 0xC0400010 = some (userFrame 0x400123) := by
    rw [hr]
    decide +kernel
  have h := (context_switch_lossless hrun (userFrame 0x400789)).1
  rw [hnext, hother] at h
  exact ⟨r, hrun, hnext, (h (by decide)).1 _ hlast⟩

end BrownieOS.Process
