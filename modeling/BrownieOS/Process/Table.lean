import BrownieOS.Mm.IdentityWindow
import BrownieOS.Mm.KmmGrow
import BrownieOS.Process.CreateCases

/-!
# The process table from boot on

Calls of `create_proc`, each with any arguments and any result, after `kheap_init`,
`proc_init` and `kernel_proc_init`. No process ever becomes unused, so nothing is freed,
every block is new, and a slot once filled keeps its process.
-/
namespace BrownieOS.Process

open BrownieOS.Lib BrownieOS.Lib.Word32 BrownieOS.Mm

/-- `kheap_init`, `proc_init` and `kernel_proc_init`, whatever memory holds. -/
structure Boot (image : KernelImage) (k₀ k : Kernel) : Prop where
  heap : ∃ mem framemap, framemap.test 0 = true ∧
    kheapInit mem framemap = some (k₀.heap, k₀.pmm.framemap)
  pidCtr : k₀.pidCtr = 0
  init : kernelProcInit image (procInit k₀) = some k

/-- The arguments of a call of `create_proc`. -/
structure CreateCall where
  entry : Nat
  execSize : Nat
  stackSize : Nat
  heapSize : Nat
  priority : ProcPriority

/-- One call that returns, with its result. -/
def CreateStep (image : KernelImage) (k : Kernel) (c : CreateCall × Nat) (k' : Kernel) : Prop :=
  createProc image k c.1.entry c.1.execSize c.1.stackSize c.1.heapSize c.1.priority = some (k', c.2)

/-- The process is one that a call of the run has returned. -/
def CreatedBy (calls : List (CreateCall × Nat)) (p : Nat) : Prop := p ≠ 0 ∧ ∃ c ∈ calls, c.2 = p

/-- What every entry of the table but the kernel's satisfies. -/
structure UserEntry (p : Proc) : Prop where
  running : p.procstate = .running
  user : p.context.cs = 0x1B
  directory : p.pageDirectory ≠ 0

/-- The invariant of the table, with the kernel process `kp` and its record. -/
structure TableInv (kp : Nat) (kernelProc : Proc) (calls : List (CreateCall × Nat)) (k : Kernel) :
    Prop where
  frame0 : k.pmm.framemap.test 0 = true
  heap : ∃ live, GrownHeap k.heap live ∧ ∀ i < maxProc, k.procList i ≠ 0 → k.procList i ∈ live
  kernelSlot : k.procList 0 = kp
  kernelNonNull : kp ≠ 0
  kernelProc : k.procs kp = kernelProc
  current : k.currentProc = kp
  entries : ∀ i, 0 < i → i < maxProc → k.procList i ≠ 0 → UserEntry (k.procs (k.procList i))
  distinct : ∀ i j, i < maxProc → j < maxProc → k.procList i ≠ 0 → k.procList i = k.procList j →
    i = j
  created : ∀ p, CreatedBy calls p → ∃ i, 0 < i ∧ i < maxProc ∧ k.procList i = p

section Table

variable {image : KernelImage} {k₀ k k' : Kernel} {kp : Nat} {kernelProc : Proc}
  {calls : List (CreateCall × Nat)}

/-- The record `kernel_proc_init` leaves: the context and the kernel stack are not written. -/
def kernelRecord (image : KernelImage) (pid : Nat) (old : Proc) : Proc :=
  { old with
    pid := pid
    procstate := .running
    priority := .high
    pageDirectory := image.dir
    brk := 0
    heapStart := 0
    stackTop := 0
    stackSize := 0 }

theorem kernelProcInit_some (h : kernelProcInit image k = some k') :
    (Mm.kmalloc k.heap sizeofProc).2 ≠ 0 ∧ k' = {
      pmm := (k.kmalloc sizeofProc).1.pmm
      heap := (Mm.kmalloc k.heap sizeofProc).1
      procs := Function.update k.procs (Mm.kmalloc k.heap sizeofProc).2
        (kernelRecord image k.pidCtr (k.procs (Mm.kmalloc k.heap sizeofProc).2))
      procList := Function.update k.procList k.pidCtr (Mm.kmalloc k.heap sizeofProc).2
      pidCtr := wadd k.pidCtr 1
      currentProc := (Mm.kmalloc k.heap sizeofProc).2
      cr3 := k.cr3 } := by
  unfold kernelProcInit at h
  dsimp only at h
  split at h
  · cases h
  · rename_i hne
    exact ⟨hne, (Option.some.inj h).symm⟩

/-- What is there after boot. -/
structure Booted (image : KernelImage) (k₀ k : Kernel) : Prop where
  nonNull : k.currentProc ≠ 0
  block : k.currentProc = (Mm.kmalloc k₀.heap sizeofProc).2
  heap : k.heap = (Mm.kmalloc k₀.heap sizeofProc).1
  table : k.procList = Function.update (procInit k₀).procList 0 k.currentProc
  record : k.procs k.currentProc = kernelRecord image 0 (k₀.procs k.currentProc)
  pidCtr : k.pidCtr = 1
  framemap : k.pmm.framemap = k₀.pmm.framemap
  mem : k.pmm.mem = k₀.pmm.mem
  cr3 : k.cr3 = k₀.cr3

theorem Boot.booted (hb : Boot image k₀ k) : Booted image k₀ k := by
  obtain ⟨hne, rfl⟩ := kernelProcInit_some hb.init
  have hpid : (procInit k₀).pidCtr = 0 := hb.pidCtr
  constructor
  · exact hne
  · rfl
  · rfl
  · rw [hpid]
  · rw [hpid]
    exact Function.update_self _ _ _
  · rw [hpid]
    rfl
  · rfl
  · rfl
  · rfl

theorem Boot.tableInv (hb : Boot image k₀ k) :
    TableInv k.currentProc (k.procs k.currentProc) [] k := by
  obtain ⟨mem, framemap, h0, hinit⟩ := hb.heap
  have hd := hb.booted
  have hzero : ∀ i, 0 < i → i < maxProc → k.procList i = 0 := by
    intro i h₀ h₁
    rw [hd.table, Function.update_of_ne (by omega)]
    exact if_pos h₁
  have hslot : k.procList 0 = k.currentProc := by
    rw [hd.table, Function.update_self]
  have hfirst : ∀ i < maxProc, k.procList i ≠ 0 → i = 0 := by
    intro i hi hi'
    by_contra hpos
    exact hi' (hzero i (by omega) hi)
  constructor
  · rw [hd.framemap]
    exact kheapInit_used h0 hinit 0 h0
  · rcases (GrownHeap.init h0 hinit).kmalloc (show 96 ≤ alignRequest sizeofProc by decide) (by decide) with
      ⟨hnull, -⟩ | ⟨-, hgrown⟩
    · exact absurd (hd.block.trans hnull) hd.nonNull
    · rw [← hd.heap, ← hd.block] at hgrown
      refine ⟨_, hgrown, fun i hi hi' => ?_⟩
      rw [hfirst i hi hi', hslot]
      exact List.mem_cons_self
  · exact hslot
  · exact hd.nonNull
  · rfl
  · rfl
  · intro i h₀ h₁ hi
    exact absurd (hzero i h₀ h₁) hi
  · intro i j hi hj hne heq
    rw [hfirst i hi hne, hfirst j hj (heq ▸ hne)]
  · rintro p ⟨-, c, hc, -⟩
    cases hc

/-- The block of a call's `proc_t` is new to the table. -/
theorem TableInv.claim (hi : TableInv kp kernelProc calls k) {i : Nat}
    (h : findEmptySlot k 1 (maxProc - 1) = some i) :
    0 < i ∧ i < maxProc ∧ k.procList i = 0 ∧ k.claimSlot i = k := by
  obtain ⟨h₁, h₂, hempty, -⟩ := findEmptySlot_some h
  have hlt : i < maxProc := by omega
  have hz : k.procList i = 0 := by
    by_contra hne
    rcases hempty with hz | hunused
    · exact hne hz
    · rw [(hi.entries i (by omega) hlt hne).running] at hunused
      cases hunused
  refine ⟨by omega, hlt, hz, ?_⟩
  unfold Kernel.claimSlot
  rw [if_neg (not_not.2 hz)]

theorem TableInv.kmalloc (hi : TableInv kp kernelProc calls k) {size : Nat}
    (hsize : 96 ≤ alignRequest size) (h0 : size ≠ 0) :
    ∃ live, GrownHeap (Mm.kmalloc k.heap size).1 live ∧
      (∀ i < maxProc, k.procList i ≠ 0 → k.procList i ∈ live) ∧
      ((Mm.kmalloc k.heap size).2 ≠ 0 → (Mm.kmalloc k.heap size).2 ∈ live ∧
        ∀ i < maxProc, k.procList i ≠ (Mm.kmalloc k.heap size).2) := by
  obtain ⟨live, hgrown, hlive⟩ := hi.heap
  rcases hgrown.kmalloc hsize h0 with ⟨hnull, hg⟩ | ⟨hne, hg⟩
  · exact ⟨live, hg, hlive, fun h => absurd hnull h⟩
  · refine ⟨_, hg, fun i h₁ h₂ => List.mem_cons_of_mem _ (hlive i h₁ h₂), fun _ =>
      ⟨List.mem_cons_self, fun i hlt heq => ?_⟩⟩
    have hmem := hlive i hlt (heq ▸ hne)
    rw [heq] at hmem
    exact (List.nodup_cons.1 hg.distinct).1 hmem

/-- A call that leaves table and records alone, and the heap grown. -/
theorem TableInv.unchanged (hi : TableInv kp kernelProc calls k) {c : CreateCall}
    (hframes : ∀ f, k.pmm.framemap.test f = true → k'.pmm.framemap.test f = true)
    (hheap : ∃ live, GrownHeap k'.heap live ∧ ∀ i < maxProc, k.procList i ≠ 0 → k.procList i ∈ live)
    (hlist : k'.procList = k.procList) (hcur : k'.currentProc = k.currentProc)
    (hprocs : ∀ i < maxProc, k.procList i ≠ 0 → k'.procs (k.procList i) = k.procs (k.procList i)) :
    TableInv kp kernelProc (calls ++ [(c, 0)]) k' := by
  have hkp : k.procList 0 ≠ 0 := by
    rw [hi.kernelSlot]
    exact hi.kernelNonNull
  constructor
  · exact hframes 0 hi.frame0
  · rw [hlist]
    exact hheap
  · rw [hlist]
    exact hi.kernelSlot
  · exact hi.kernelNonNull
  · rw [← hi.kernelProc, ← hi.kernelSlot]
    exact hprocs 0 (by decide) hkp
  · rw [hcur]
    exact hi.current
  · intro i h₀ h₁ hne
    rw [hlist] at hne ⊢
    rw [hprocs i h₁ hne]
    exact hi.entries i h₀ h₁ hne
  · rw [hlist]
    exact hi.distinct
  · rintro p ⟨hp, d, hd, hdp⟩
    rw [hlist]
    rcases List.mem_append.1 hd with hd | hd
    · exact hi.created p ⟨hp, d, hd, hdp⟩
    · rw [List.mem_singleton.1 hd] at hdp
      exact absurd hdp.symm hp

/-- A call that fills the slot `i` with a new process. -/
theorem TableInv.filled (hi : TableInv kp kernelProc calls k) {c : CreateCall} {i proc : Nat}
    (hi₀ : 0 < i) (hlt : i < maxProc) (hempty : k.procList i = 0)
    (hframes : ∀ f, k.pmm.framemap.test f = true → k'.pmm.framemap.test f = true)
    (hheap : ∃ live, GrownHeap k'.heap live ∧ proc ∈ live ∧
      ∀ j < maxProc, k.procList j ≠ 0 → k.procList j ∈ live)
    (hnew : ∀ j < maxProc, k.procList j ≠ proc)
    (hlist : k'.procList = Function.update k.procList i proc) (hcur : k'.currentProc = k.currentProc)
    (hprocs : ∀ q, q ≠ proc → k'.procs q = k.procs q) (hentry : UserEntry (k'.procs proc)) :
    TableInv kp kernelProc (calls ++ [(c, proc)]) k' := by
  have hself : k'.procList i = proc := by rw [hlist, Function.update_self]
  have hother : ∀ j, j ≠ i → k'.procList j = k.procList j := fun j hj => by
    rw [hlist, Function.update_of_ne hj]
  constructor
  · exact hframes 0 hi.frame0
  · obtain ⟨live, hg, hmem, hlive⟩ := hheap
    refine ⟨live, hg, fun j hj hne => ?_⟩
    by_cases he : j = i
    · rw [he, hself]
      exact hmem
    · rw [hother j he] at hne ⊢
      exact hlive j hj hne
  · rw [hother 0 (by omega)]
    exact hi.kernelSlot
  · exact hi.kernelNonNull
  · rw [hprocs kp (fun h => hnew 0 (by decide) (hi.kernelSlot.trans h))]
    exact hi.kernelProc
  · rw [hcur]
    exact hi.current
  · intro j h₀ h₁ hne
    by_cases he : j = i
    · rw [he, hself]
      exact hentry
    · rw [hother j he] at hne ⊢
      rw [hprocs _ (hnew j h₁)]
      exact hi.entries j h₀ h₁ hne
  · intro j l hj hl hne heq
    by_cases hji : j = i
    · by_cases hli : l = i
      · rw [hji, hli]
      · rw [hji, hself, hother l hli] at heq
        exact absurd heq.symm (hnew l hl)
    · rw [hother j hji] at hne heq
      by_cases hli : l = i
      · rw [hli, hself] at heq
        exact absurd heq (hnew j hj)
      · rw [hother l hli] at heq
        exact hi.distinct j l hj hl hne heq
  · rintro p ⟨hp, d, hd, hdp⟩
    rcases List.mem_append.1 hd with hd | hd
    · obtain ⟨j, h₀, h₁, hj⟩ := hi.created p ⟨hp, d, hd, hdp⟩
      refine ⟨j, h₀, h₁, ?_⟩
      rw [hother j (fun he => hp (by rw [← hj, he, hempty]))]
      exact hj
    · rw [List.mem_singleton.1 hd] at hdp
      exact ⟨i, hi₀, hlt, hself.trans hdp⟩

/-- The two sizes that processes are made of. -/
theorem alignRequest_sizeofProc : 96 ≤ alignRequest sizeofProc := by decide

theorem alignRequest_kstack : 96 ≤ alignRequest 8192 := by decide

/-- What one call of `create_proc` preserves. -/
theorem TableInv.step (hi : TableInv kp kernelProc calls k) {c : CreateCall × Nat}
    (h : CreateStep image k c k') : TableInv kp kernelProc (calls ++ [c]) k' := by
  obtain ⟨c, r⟩ := c
  have hcases := createProc_cases hi.frame0 h
  cases hcases with
  | noSlot _ =>
    obtain ⟨live, hg, hlive⟩ := hi.heap
    exact hi.unchanged (fun _ hf => hf) ⟨live, hg, hlive⟩ rfl rfl (fun _ _ _ => rfl)
  | noBlock hslot hnull =>
    obtain ⟨-, -, -, hclaim⟩ := hi.claim hslot
    obtain ⟨live, hg, hlive, -⟩ := hi.kmalloc alignRequest_sizeofProc (by decide)
    rw [hclaim]
    exact hi.unchanged (fun _ hf => hf) ⟨live, hg, hlive⟩ rfl rfl (fun _ _ _ => rfl)
  | @started i proc r k₁ k' hslot hblock hne hout =>
    obtain ⟨hi₀, hlt, hempty, hclaim⟩ := hi.claim hslot
    obtain ⟨live, hg, hlive, hnew⟩ := hi.kmalloc alignRequest_sizeofProc (by decide)
    rw [hclaim] at hblock
    obtain ⟨rfl, rfl⟩ := Prod.mk.inj hblock
    obtain ⟨hmem, hnew⟩ := hnew hne
    have hf := hout.frame hi.frame0
    have hprocs : ∀ q, q ≠ (Mm.kmalloc k.heap sizeofProc).2 → k'.procs q = k.procs q :=
      fun q hq => (hf.others q hq).trans (Function.update_of_ne hq _ _)
    rcases hout.slot hi.frame0 with ⟨rfl, hlist, hheap⟩ | ⟨rfl, hlist, hheap, dir, hdir, hrec⟩
    · refine hi.unchanged hf.used ⟨live, ?_, hlive⟩ hlist hf.current fun i hlt _ => hprocs _ (hnew i hlt)
      rw [hheap]
      exact hg
    · refine hi.filled hi₀ hlt hempty hf.used ?_ hnew hlist hf.current hprocs ?_
      · rcases hg.kmalloc alignRequest_kstack (by decide) with ⟨-, hg'⟩ | ⟨-, hg'⟩
        · exact ⟨_, hheap ▸ hg', hmem, hlive⟩
        · exact ⟨_, hheap ▸ hg', List.mem_cons_of_mem _ hmem, fun j hj hj' =>
            List.mem_cons_of_mem _ (hlive j hj hj')⟩
      · exact ⟨by rw [hrec]; rfl, by rw [hrec]; rfl, by rw [hrec]; exact hdir⟩

/-- The table in every state of a run of `create_proc` calls from boot. -/
theorem TableInv.run (hb : Boot image k₀ k) (hrun : Run (CreateStep image) k calls k') :
    TableInv k.currentProc (k.procs k.currentProc) calls k' :=
  hrun.invariant_trace (I := TableInv k.currentProc (k.procs k.currentProc))
    (fun _ _ _ _ hi h => hi.step h) hb.tableInv

end Table

/-! ## A machine that uses exactly its first 4 MiB -/

/-- The frames used once the heap is there. -/
def bootFrames : FrameMap := fun cell => if cell < 256 then 0xFF#8 else 0#8

theorem test_cells (n f : Nat) :
    Bitmap.test (fun cell => if cell < n then 0xFF#8 else 0#8) f = decide (f < 8 * n) := by
  rw [test_full (· < n), decide_eq_decide]
  omega

/-- `kheap_init` where the frames from 1024 on are the first that are free. -/
theorem kheapInit_frames {framemap framemap' : FrameMap} (h0 : framemap.test 0 = true)
    (hbase : (allocPages framemap pmmFlagsDefault kheapPages).map Prod.fst = some 0x400000)
    (hused : ∀ f, framemap'.test f = (decide (1024 ≤ f ∧ f < 2048) || framemap.test f)) :
    kheapInit (fun _ => 0) framemap = some (bootHeap, framemap') := by
  obtain ⟨⟨base, fm⟩, halloc, rfl⟩ := Option.map_eq_some_iff.1 hbase
  have hnew := allocPages_allocated h0 halloc (by decide)
  have hstart : kp2v 0x400000 = 0xC0400000 := rfl
  have hframes : fm = framemap' := by
    rw [hnew.marked]
    apply Bitmap.ext_test (by decide)
    intro f
    rw [Bitmap.test_setRange (by decide), hused]
    rfl
  rw [kheapInit, halloc, bootHeap, ← hstart, hframes]

theorem kheapInit_bootFrames :
    kheapInit (fun _ => 0) lowUsed = some (bootHeap, bootFrames) := by
  apply kheapInit_frames (lowUsed_low 0 (by decide)) (by decide +kernel)
  intro f
  have hlow : lowUsed.test f = decide (f < 1024) := test_cells 128 f
  have hboot : bootFrames.test f = decide (f < 2048) := test_cells 256 f
  rw [hlow, hboot, ← Bool.decide_or, decide_eq_decide]
  omega

/-- The state after `kheap_init`, with zeros in memory and `cs` in every record. -/
def sampleKernel (cs : Nat) : Kernel where
  pmm := ⟨fun _ => 0, bootFrames, false⟩
  heap := bootHeap
  procs := fun _ => ⟨0, 0, ⟨0, 0, 0, 0, 0, 0, 0, 0, 0, cs, 0, 0, 0⟩, .unused, .low, 0, 0, 0, 0, 0, 0, 0, 0⟩
  procList := fun _ => 0
  pidCtr := 0
  currentProc := 0
  cr3 := sampleImage.dirPaddr

/-- A process with one page of stack. -/
def sampleCall : CreateCall := ⟨0x400000, 0, 4096, 0, .normal⟩

theorem sampleKernel_boot {cs : Nat} {k : Kernel}
    (h : kernelProcInit sampleImage (procInit (sampleKernel cs)) = some k) :
    Boot sampleImage (sampleKernel cs) k where
  heap := ⟨_, lowUsed, lowUsed_low 0 (by decide), kheapInit_bootFrames⟩
  pidCtr := rfl
  init := h

end BrownieOS.Process
