import BrownieOS.Process.StackFrames
import BrownieOS.Process.Table

/-!
# The process table is indexed by PID

The slot comes from a scan and the PID from a counter. A call that fails once it has its
PID leaves the counter ahead of the slots; but it fails only when no low frame is left for
a page table, frames are never given back, and every process needs a table for its stack.
So there is no later process to be put into a slot of another index.
-/
namespace BrownieOS.Process

open BrownieOS.Lib BrownieOS.Lib.Word32 BrownieOS.Mm

/-- The counter is the number of filled slots, or no process will be made any more. -/
structure PidInv (image : KernelImage) (k : Kernel) : Prop where
  space : KernelSpace image k.pmm
  pids : ∀ i < maxProc, k.procList i ≠ 0 → (k.procs (k.procList i)).pid = i
  counter : LowExhausted k.pmm.framemap ∨
    k.pidCtr ≤ maxProc ∧ ∀ i < maxProc, k.procList i ≠ 0 ↔ i < k.pidCtr

section PidIndex

variable {image : KernelImage} {k₀ k k' : Kernel} {kp : Nat} {kernelProc : Proc}
  {calls : List (CreateCall × Nat)} {c : CreateCall × Nat}

theorem Boot.pidInv (hb : Boot image k₀ k) (hp : Paged image k₀.pmm) : PidInv image k := by
  have hd := hb.booted
  have ht := hb.tableInv
  have hs := hp.kernelSpace
  have hfirst : ∀ i < maxProc, k.procList i ≠ 0 ↔ i < 1 := by
    intro i hi
    by_cases h0 : i = 0
    · rw [h0, ht.kernelSlot]
      exact iff_of_true ht.kernelNonNull (by decide)
    · refine iff_of_false (not_not.2 ?_) (by omega)
      rw [hd.table, Function.update_of_ne h0]
      exact if_pos hi
  refine ⟨hs.of_sameFrame (fun f hf => by rw [hd.framemap]; exact hf) ?_ ?_, fun i hi hne => ?_, Or.inr ?_⟩
  · rw [hd.mem]
    exact .refl _ _
  · rw [hd.mem]
    exact .refl _ _
  · have hz : i = 0 := by
      have := (hfirst i hi).1 hne
      omega
    rw [hz, ht.kernelSlot, hd.record]
    rfl
  · rw [hd.pidCtr]
    exact ⟨by decide, hfirst⟩

/-- A call that returns before it takes a PID. -/
theorem PidInv.unchanged (hi : PidInv image k) (hmem : k'.pmm.mem = k.pmm.mem)
    (hframes : k'.pmm.framemap = k.pmm.framemap) (hpid : k'.pidCtr = k.pidCtr)
    (hlist : k'.procList = k.procList) (hprocs : k'.procs = k.procs) : PidInv image k' := by
  refine ⟨hi.space.of_sameFrame (fun f hf => by rw [hframes]; exact hf) ?_ ?_, ?_, ?_⟩
  · rw [hmem]
    exact .refl _ _
  · rw [hmem]
    exact .refl _ _
  · rw [hlist, hprocs]
    exact hi.pids
  · rw [hframes, hpid, hlist]
    exact hi.counter

/-- The first empty slot is the one the counter names. -/
theorem slot_eq_pidCtr {i : Nat} (hle : k.pidCtr ≤ maxProc)
    (hfilled : ∀ i < maxProc, k.procList i ≠ 0 ↔ i < k.pidCtr) (hkernel : k.procList 0 ≠ 0)
    (hslot : findEmptySlot k 1 (maxProc - 1) = some i) (hlt : i < maxProc) (hempty : k.procList i = 0) :
    i = k.pidCtr := by
  obtain ⟨h₁, -, -, hbefore⟩ := findEmptySlot_some hslot
  have hge : ¬ i < k.pidCtr := fun h => ((hfilled i hlt).2 h) hempty
  have hpos := (hfilled 0 (by decide)).1 hkernel
  by_contra hne
  have hnext : k.pidCtr < i := by omega
  have := (hfilled k.pidCtr (by omega)).1 (hbefore k.pidCtr (by omega) hnext)
  omega

theorem PidInv.step (hi : PidInv image k) (ht : TableInv kp kernelProc calls k) (hl : image.Linked)
    (h : CreateStep image k c k') : PidInv image k' := by
  obtain ⟨c, r⟩ := c
  have hcases := createProc_cases ht.frame0 h
  cases hcases with
  | noSlot _ => exact hi
  | noBlock hslot _ =>
    obtain ⟨-, -, -, hclaim⟩ := ht.claim hslot
    rw [hclaim]
    exact hi.unchanged rfl rfl rfl rfl rfl
  | @started i proc r k₁ k' hslot hblock hne hout =>
    obtain ⟨hi₀, hlt, hempty, hclaim⟩ := ht.claim hslot
    rw [hclaim] at hblock
    obtain ⟨rfl, rfl⟩ := Prod.mk.inj hblock
    obtain ⟨live, -, -, hnew⟩ := ht.kmalloc alignRequest_sizeofProc (by decide)
    obtain ⟨-, hnew⟩ := hnew hne
    have hf := hout.frame ht.frame0
    have hprocs : ∀ j < maxProc, k'.procs (k.procList j) = k.procs (k.procList j) :=
      fun j hj => (hf.others _ (hnew j hj)).trans (Function.update_of_ne (hnew j hj) _ _)
    have hpid : (k'.procs (Mm.kmalloc k.heap sizeofProc).2).pid = k.pidCtr := by
      rw [hf.pid]
      simp [Kernel.takePid]
    have hcounter : k'.pidCtr = wadd k.pidCtr 1 := hf.pidCtr
    have hspace₁ : KernelSpace image
        ((k.kmalloc sizeofProc).1.takePid (Mm.kmalloc k.heap sizeofProc).2 c.priority).pmm :=
      ⟨hi.space.reserved, hi.space.empty, hi.space.directory⟩
    obtain ⟨hspace, hres⟩ := hout.space hspace₁ hl
    rcases hout.slot ht.frame0 with ⟨hr, hlist, -⟩ | ⟨hr, hlist, -⟩
    · -- the PID is lost, and with it every later process
      have hlow : LowExhausted k'.pmm.framemap := by
        rcases hres with ⟨-, hlow⟩ | ⟨hproc, -⟩
        · exact hlow
        · exact absurd (hproc.symm.trans hr) hne
      refine ⟨hspace, fun j hj hj' => ?_, Or.inl hlow⟩
      rw [hlist] at hj' ⊢
      exact (congrArg Proc.pid (hprocs j hj)).trans (hi.pids j hj hj')
    · have hfree : ¬ LowExhausted k.pmm.framemap := by
        rcases hres with ⟨hz, -⟩ | ⟨-, hfree⟩
        · exact absurd (hr.symm.trans hz) hne
        · exact hfree
      obtain ⟨hle, hfilled⟩ := hi.counter.resolve_left hfree
      have hkernel : k.procList 0 ≠ 0 := by
        rw [ht.kernelSlot]
        exact ht.kernelNonNull
      have hidx := slot_eq_pidCtr hle hfilled hkernel hslot hlt hempty
      have hnext : k'.pidCtr = i + 1 := by
        rw [hcounter, ← hidx]
        exact wadd_of_lt (by simp only [maxProc] at hlt; omega)
      have hself : k'.procList i = (Mm.kmalloc k.heap sizeofProc).2 := by
        rw [hlist]
        exact Function.update_self _ _ _
      have hother : ∀ j, j ≠ i → k'.procList j = k.procList j := by
        intro j hj
        rw [hlist]
        exact Function.update_of_ne hj _ _
      refine ⟨hspace, fun j hj hj' => ?_, Or.inr ⟨by omega, fun j hj => ?_⟩⟩
      · by_cases he : j = i
        · rw [he, hself, hpid, hidx]
        · rw [hother j he] at hj' ⊢
          exact (congrArg Proc.pid (hprocs j hj)).trans (hi.pids j hj hj')
      · by_cases he : j = i
        · rw [he, hself]
          exact iff_of_true hne (by omega)
        · rw [hother j he, hfilled j hj]
          omega

theorem PidInv.run (hb : Boot image k₀ k) (hp : Paged image k₀.pmm) (hl : image.Linked)
    (hrun : Run (CreateStep image) k calls k') : PidInv image k' := by
  have hboth := hrun.invariant_trace (I := fun calls t =>
    TableInv k.currentProc (k.procs k.currentProc) calls t ∧ PidInv image t)
    (fun _ _ _ _ hi h => ⟨hi.1.step h, hi.2.step hi.1 hl h⟩) ⟨hb.tableInv, hb.pidInv hp⟩
  exact hboth.2

/-- The process table is indexed by PID: after boot and any calls of `create_proc`, whether
they have made a process or failed, wherever they failed, every process stands at the index
of its PID, and no two have the same. -/
theorem proc_list_indexed_by_pid (hboot : Boot image k₀ k) (hpaged : Paged image k₀.pmm)
    (hlinked : image.Linked) (hcalls : Run (CreateStep image) k calls k') :
    (∀ i < maxProc, k'.procList i ≠ 0 → (k'.procs (k'.procList i)).pid = i) ∧
      ∀ i < maxProc, ∀ j < maxProc, k'.procList i ≠ 0 → k'.procList j ≠ 0 →
        (k'.procs (k'.procList i)).pid = (k'.procs (k'.procList j)).pid → i = j := by
  have hi := PidInv.run hboot hpaged hlinked hcalls
  refine ⟨hi.pids, fun i hlt j hlt' hne hne' heq => ?_⟩
  rw [hi.pids i hlt hne, hi.pids j hlt' hne'] at heq
  exact heq

/-- The kernel directory as `paging_init` leaves it, and the heap on its frames. -/
def pagedKernel : Kernel :=
  { sampleKernel 0 with pmm := ⟨setupKernelDirectory sampleImage fun _ => 0, bootFrames, false⟩ }

theorem sampleImage_linked : sampleImage.Linked := by
  unfold KernelImage.Linked
  decide

theorem pagedKernel_paged : Paged sampleImage pagedKernel.pmm := by
  have hzero : ∀ a, Mem.get32 (fun _ => 0) a = 0 := fun _ => rfl
  refine ⟨⟨fun _ => 0, fun i _ => hzero _, ?_⟩, fun f hf => ?_⟩
  · dsimp only [pagedKernel]
  have hused : bootFrames.test f = decide (f < 8 * 256) := test_cells 256 f
  rw [show pagedKernel.pmm.framemap = bootFrames from rfl, hused, decide_eq_true (by omega)]

theorem bootFrames_usedTo : UsedTo bootFrames 2048 0x38000 := by
  intro f
  have hused : bootFrames.test f = decide (f < 8 * 256) := test_cells 256 f
  rw [hused, decide_eq_decide]
  omega

/-- The frames of the first address space after boot: a stack of 4096 bytes enters two pages. -/
theorem bootFrames_space :
    ∃ fm fm', allocPages bootFrames pmmFlagsDefault 2 = some (0x800000, fm) ∧
      spaceFrames bootFrames 4096 = some (fm', true, true) ∧ UsedTo fm' 2051 0x38002 :=
  spaceFrames_usedTo bootFrames_usedTo (by decide) (by decide) (by decide) (by decide) rfl
    (by decide) (by decide)

/-- The state after `kernel_proc_init`, with those frames in use: the first two slots are free, and
the heap has blocks for two processes and their kernel stacks. -/
structure PagedBoot (k₀ k : Kernel) (framemap : FrameMap) : Prop where
  boot : Boot sampleImage k₀ k
  framemap : k.pmm.framemap = framemap
  failed : k.pmm.failed = false
  kernelSlot : k.procList 0 = 0xC0400010
  slot : findEmptySlot k 1 (maxProc - 1) = some 1
  empty : k.procList 1 = 0 ∧ k.procList 2 = 0
  block : (Mm.kmalloc k.heap sizeofProc).2 = 0xC04000A0
  stack : (Mm.kmalloc (Mm.kmalloc k.heap sizeofProc).1 8192).2 ≠ 0
  block' : (Mm.kmalloc (Mm.kmalloc (Mm.kmalloc k.heap sizeofProc).1 8192).1 sizeofProc).2 = 0xC0402150
  stack' : (Mm.kmalloc (Mm.kmalloc (Mm.kmalloc (Mm.kmalloc k.heap sizeofProc).1 8192).1 sizeofProc).1
    8192).2 ≠ 0

theorem pagedKernel_boots : ∃ k, PagedBoot pagedKernel k bootFrames := by
  have heval : (kernelProcInit sampleImage (procInit pagedKernel)).map (fun k =>
      ((k.pmm.failed, k.procList 0, findEmptySlot k 1 (maxProc - 1), k.procList 1, k.procList 2),
        (Mm.kmalloc k.heap sizeofProc).2,
        (Mm.kmalloc (Mm.kmalloc (Mm.kmalloc k.heap sizeofProc).1 8192).1 sizeofProc).2,
        (Mm.kmalloc (Mm.kmalloc k.heap sizeofProc).1 8192).2 != 0 &&
        (Mm.kmalloc (Mm.kmalloc (Mm.kmalloc (Mm.kmalloc k.heap sizeofProc).1 8192).1 sizeofProc).1
          8192).2 != 0)) = some ((false, 0xC0400010, some 1, 0, 0), 0xC04000A0, 0xC0402150, true) := by
    decide +kernel
  obtain ⟨k, hk, heq⟩ := Option.map_eq_some_iff.1 heval
  simp only [Prod.mk.injEq, Bool.and_eq_true, bne_iff_ne] at heq
  obtain ⟨⟨hfailed, hkernel, hslot, hempty⟩, hblock, hblock', hstack, hstack'⟩ := heq
  have hboot : Boot sampleImage pagedKernel k :=
    ⟨⟨_, lowUsed, lowUsed_low 0 (by decide), kheapInit_bootFrames⟩, rfl, hk⟩
  exact ⟨k, hboot, hboot.booted.framemap, hfailed, hkernel, hslot, hempty, hblock, hstack, hblock', hstack'⟩

theorem pagedKernel_creates : ∃ k k₁, Boot sampleImage pagedKernel k ∧
    Run (CreateStep sampleImage) k [(sampleCall, 0xC04000A0)] k₁ := by
  obtain ⟨k, h⟩ := pagedKernel_boots
  obtain ⟨-, fm, -, hframes, -⟩ := bootFrames_space
  rw [← h.framemap] at hframes
  have hblock : ((k.claimSlot 1).kmalloc sizeofProc).2 = 0xC04000A0 := by
    rw [Kernel.claimSlot, if_neg (not_not.2 h.empty.1)]
    exact h.block
  obtain ⟨k₁, hk₁⟩ := @createProc_returns _ _ _ 0x400000 0 0 _ _ .normal _ _ _ h.slot hblock
    (by decide) (h.boot.pidInv pagedKernel_paged).space sampleImage_linked hframes
  exact ⟨k, k₁, h.boot, .single hk₁⟩

/-- One process after boot. -/
theorem proc_list_indexed_by_pid_one : ∃ k k₁, Boot sampleImage pagedKernel k ∧
    Run (CreateStep sampleImage) k [(sampleCall, 0xC04000A0)] k₁ ∧
    ∀ i < maxProc, k₁.procList i ≠ 0 → (k₁.procs (k₁.procList i)).pid = i := by
  obtain ⟨k, k₁, hboot, hcalls⟩ := pagedKernel_creates
  exact ⟨k, k₁, hboot, hcalls,
    (proc_list_indexed_by_pid hboot pagedKernel_paged sampleImage_linked hcalls).1⟩

end PidIndex

end BrownieOS.Process
