import BrownieOS.Mm.KmmFit
import BrownieOS.Process.PidIndex

/-!
# What a failed `create_proc` leaves behind

Only the first allocation, that of the `proc_t`, fails without a trace: the PID is taken
next and is never given back. A failed search for the stack's frames does not even return,
and a page directory at physical address 0 is not seen to have failed.
-/
namespace BrownieOS.Process

open BrownieOS.Lib BrownieOS.Lib.Word32 BrownieOS.Core BrownieOS.Mm

/-- The payloads of the blocks that the header array names and that are used. -/
def allocatedBlocks (heap : Heap) : List Nat :=
  (heap.headerArray.entries.filter fun header => headerUsed heap.mem header != 0).map
    fun header => wadd header sizeofHeader

/-- What a call that has changed nothing leaves: only frames and blocks that were free may
have been written to. -/
structure Unchanged (k k' : Kernel) : Prop where
  framemap : ∀ f, k'.pmm.framemap.test f = k.pmm.framemap.test f
  blocks : allocatedBlocks k'.heap = allocatedBlocks k.heap
  pidCtr : k'.pidCtr = k.pidCtr
  procList : k'.procList = k.procList
  notFreed : ∀ i < maxProc, k'.procList i ∈ allocatedBlocks k.heap →
    k'.procList i ∈ allocatedBlocks k'.heap
  mem : ∀ f, k.pmm.framemap.test f = true → k.pmm.mem.SameFrame k'.pmm.mem f
  records : ∀ p ∈ allocatedBlocks k.heap, k'.procs p = k.procs p

/-- The state with an empty record of failures. -/
def Kernel.unrecorded (k : Kernel) : Kernel := { k with pmm := { k.pmm with failed := false } }

/-- The call from a state with an empty record of failures. -/
def CreateCall.run (image : KernelImage) (k : Kernel) (c : CreateCall) : Option (Kernel × Nat) :=
  createProc image k.unrecorded c.entry c.execSize c.stackSize c.heapSize c.priority

/-- Some allocation of the call fails, or its search for frames does not end. -/
def AllocationFails (image : KernelImage) (k : Kernel) (c : CreateCall) : Prop :=
  ∀ k' r, c.run image k = some (k', r) → k'.pmm.failed = true

/-- When an allocation fails, the call returns NULL and has changed nothing. -/
def AllOrNothing (image : KernelImage) (k : Kernel) (c : CreateCall) : Prop :=
  AllocationFails image k c → ∃ k', c.run image k = some (k', 0) ∧ Unchanged k k'

/-- The directory, the stack, the tables and, after the `proc_t`, the kernel stack are all
to be had. -/
def AllToBeHad (k : Kernel) (c : CreateCall) : Prop :=
  (∃ framemap, spaceFrames k.pmm.framemap c.stackSize = some (framemap, true, true)) ∧
    (Mm.kmalloc (Mm.kmalloc k.heap sizeofProc).1 8192).2 ≠ 0

/-- What holds whenever `create_proc` is called: the kernel's space is in place, the heap is
in order or every block it names is used, and no process of the table is unused. -/
structure CreateReady (image : KernelImage) (k : Kernel) : Prop where
  linked : image.Linked
  space : KernelSpace image k.pmm
  heap : (∃ bs, Layout k.heap bs) ∨ Exhausted k.heap
  slots : ∀ i, 0 < i → i < maxProc → k.procList i ≠ 0 →
    (k.procs (k.procList i)).procstate ≠ .unused

section AllOrNothing

variable {image : KernelImage} {k₀ k k' : Kernel} {c : CreateCall} {i p size : Nat}
  {calls : List (CreateCall × Nat)}

/-- Every state of a run of `create_proc` calls from boot is ready for the next. -/
theorem CreateReady.of_run (hb : Boot image k₀ k) (hp : Paged image k₀.pmm) (hl : image.Linked)
    (hrun : Run (CreateStep image) k calls k') : CreateReady image k' := by
  have ht := TableInv.run hb hrun
  have hpid := PidInv.run hb hp hl hrun
  obtain ⟨live, hgrown, -⟩ := ht.heap
  refine ⟨hl, hpid.space, ?_, ?_⟩
  · rcases hgrown.shape with ⟨bs, b, hi, -⟩ | hex
    · exact Or.inl ⟨_, hi.layout⟩
    · exact Or.inr hex
  · intro i h₀ h₁ hne hunused
    rw [(ht.entries i h₀ h₁ hne).running] at hunused
    cases hunused

theorem kmalloc_failed (h : (∃ bs, Layout k.heap bs) ∨ Exhausted k.heap) (hsize : size ≠ 0)
    (hnull : (Mm.kmalloc k.heap size).2 = 0) : (Mm.kmalloc k.heap size).1 = k.heap := by
  rcases h with ⟨bs, hl⟩ | hex
  · have hout := alloc_outcome hl hsize
    rw [Mm.kmalloc] at hnull ⊢
    generalize alloc k.heap size = result at hout hnull ⊢
    cases hout with
    | none _ => rfl
    | block _ _ => cases hnull
  · rw [kmalloc_exhausted hex]

/-- No slot is given up for a new process. -/
theorem CreateReady.claim (hk : CreateReady image k) (hslot : findEmptySlot k 1 (maxProc - 1) = some i) :
    k.claimSlot i = k := by
  obtain ⟨h₁, h₂, hempty, -⟩ := findEmptySlot_some hslot
  unfold Kernel.claimSlot
  rw [if_neg (not_not.2 ?_)]
  by_contra hne
  rcases hempty with hz | hunused
  · exact hne hz
  · exact hk.slots i (by omega) (by omega) hne hunused

theorem Unchanged.of_eq (hmem : k'.pmm.mem = k.pmm.mem) (hframes : k'.pmm.framemap = k.pmm.framemap)
    (hheap : k'.heap = k.heap) (hprocs : k'.procs = k.procs) (hpid : k'.pidCtr = k.pidCtr)
    (hlist : k'.procList = k.procList) : Unchanged k k' where
  framemap := fun f => by rw [hframes]
  blocks := by rw [hheap]
  pidCtr := hpid
  procList := hlist
  notFreed := fun i _ hi => by rw [hheap]; exact hi
  mem := fun f _ => by rw [hmem]; exact .refl _ f
  records := fun p _ => by rw [hprocs]

theorem findEmptySlot_unrecorded (k : Kernel) :
    ∀ n i, findEmptySlot k.unrecorded i n = findEmptySlot k i n := by
  intro n
  induction n with
  | zero => exact fun _ => rfl
  | succ n ih =>
    intro i
    rw [findEmptySlot, findEmptySlot, ih]
    rfl

theorem CreateReady.unrecorded (hk : CreateReady image k) : CreateReady image k.unrecorded :=
  ⟨hk.linked, ⟨hk.space.reserved, hk.space.empty, hk.space.directory⟩, hk.heap, hk.slots⟩

/-- A call that returns with a slot and a block has used up a PID, and no allocation has
failed exactly if all were to be had. -/
theorem CreateReady.started (hk : CreateReady image k) (hfailed : k.pmm.failed = false)
    (hslot : findEmptySlot k 1 (maxProc - 1) = some i) (hne : (Mm.kmalloc k.heap sizeofProc).2 ≠ 0)
    {r : Nat} (h : createProc image k c.entry c.execSize c.stackSize c.heapSize c.priority =
      some (k', r)) :
    k'.pidCtr = wadd k.pidCtr 1 ∧ (k'.pmm.failed = false ↔ AllToBeHad k c) := by
  have hclaim := hk.claim hslot
  have hcases := createProc_cases (hk.space.reserved 0 (by decide)) h
  cases hcases with
  | noSlot hnone => exact absurd (hnone.symm.trans hslot) (by simp)
  | noBlock hslot' hnull =>
    obtain rfl := Option.some.inj (hslot'.symm.trans hslot)
    rw [hclaim] at hnull
    exact absurd hnull hne
  | @started i' proc r k₁ k' hslot' hblock hproc hout =>
    obtain rfl := Option.some.inj (hslot'.symm.trans hslot)
    rw [hclaim] at hblock
    obtain rfl : k₁ = (k.kmalloc sizeofProc).1 := by rw [hblock]
    obtain rfl : proc = (k.kmalloc sizeofProc).2 := by rw [hblock]
    have hspace : KernelSpace image
        ((k.kmalloc sizeofProc).1.takePid (k.kmalloc sizeofProc).2 c.priority).pmm :=
      ⟨hk.space.reserved, hk.space.empty, hk.space.directory⟩
    have hframe := hout.frame (hspace.reserved 0 (by decide))
    obtain ⟨gotDir, gotTables, hframes, -, hrecord⟩ := hout.frames hspace hk.linked
    have hstart : ((k.kmalloc sizeofProc).1.takePid (k.kmalloc sizeofProc).2 c.priority).pmm.failed =
        false := by
      show (k.pmm.failed || (Mm.kmalloc k.heap sizeofProc).2 == 0) = false
      simp [hfailed, hne]
    have hkstack : ((k.kmalloc sizeofProc).1.takePid (k.kmalloc sizeofProc).2 c.priority).heap =
        (Mm.kmalloc k.heap sizeofProc).1 := rfl
    have hbitmap : ((k.kmalloc sizeofProc).1.takePid
        (k.kmalloc sizeofProc).2 c.priority).pmm.framemap = k.pmm.framemap := rfl
    rw [hbitmap] at hframes
    rw [hstart, hkstack] at hrecord
    refine ⟨hframe.pidCtr, ?_⟩
    rw [hrecord, AllToBeHad, hframes]
    cases gotDir <;> cases gotTables <;> simp

/-- With a slot and a block, a call for which all is to be had returns. -/
theorem CreateReady.returns (hk : CreateReady image k)
    (hslot : findEmptySlot k 1 (maxProc - 1) = some i) (hne : (Mm.kmalloc k.heap sizeofProc).2 ≠ 0)
    (hall : AllToBeHad k c) : ∃ k' r,
      createProc image k c.entry c.execSize c.stackSize c.heapSize c.priority = some (k', r) := by
  obtain ⟨⟨framemap, hframes⟩, -⟩ := hall
  have hblock : ((k.claimSlot i).kmalloc sizeofProc).2 = (Mm.kmalloc k.heap sizeofProc).2 := by
    rw [hk.claim hslot]
    rfl
  obtain ⟨k', hcall⟩ := @createProc_returns image c.stackSize k c.entry c.execSize c.heapSize i _
    c.priority _ _ _ hslot hblock hne hk.space hk.linked hframes
  exact ⟨k', _, hcall⟩

/-- A call that fails behind the first allocation is neither all nor nothing. -/
theorem CreateReady.not_allOrNothing (hk : CreateReady image k)
    (hslot : findEmptySlot k 1 (maxProc - 1) = some i) (hne : (Mm.kmalloc k.heap sizeofProc).2 ≠ 0)
    (hall : ¬ AllToBeHad k c) : ¬ AllOrNothing image k c := by
  intro hnothing
  have hslot' : findEmptySlot k.unrecorded 1 (maxProc - 1) = some i := by
    rw [findEmptySlot_unrecorded, hslot]
  have hstarted : ∀ k' r, createProc image k.unrecorded c.entry c.execSize c.stackSize c.heapSize
      c.priority = some (k', r) → k'.pidCtr = wadd k.unrecorded.pidCtr 1 ∧
        (k'.pmm.failed = false ↔ AllToBeHad k.unrecorded c) :=
    fun _ _ => hk.unrecorded.started rfl hslot' hne
  obtain ⟨k', hcall, hsame⟩ := hnothing fun k' r hcall => by
    cases hfailed : k'.pmm.failed with
    | true => rfl
    | false => exact absurd ((hstarted k' r hcall).2.mp hfailed) hall
  have hpid := (hstarted k' 0 hcall).1
  rw [hsame.pidCtr] at hpid
  have hold : k.unrecorded.pidCtr = k.pidCtr := rfl
  rw [hold, wadd] at hpid
  omega

/-- `create_proc` is all or nothing exactly if it finds no slot, if it gets no `proc_t`, or
if nothing fails. -/
theorem create_proc_all_or_nothing_iff (hk : CreateReady image k) : AllOrNothing image k c ↔
    findEmptySlot k 1 (maxProc - 1) = none ∨ (Mm.kmalloc k.heap sizeofProc).2 = 0 ∨
      AllToBeHad k c := by
  constructor
  · intro hnothing
    cases hslot : findEmptySlot k 1 (maxProc - 1) with
    | none => exact Or.inl rfl
    | some i =>
      right
      by_contra hno
      obtain ⟨hne, hall⟩ := not_or.mp hno
      exact hk.not_allOrNothing hslot hne hall hnothing
  · intro hcond hfails
    cases hslot : findEmptySlot k 1 (maxProc - 1) with
    | none =>
      refine ⟨k.unrecorded, ?_, .of_eq rfl rfl rfl rfl rfl rfl⟩
      unfold CreateCall.run createProc
      rw [findEmptySlot_unrecorded, hslot]
    | some i =>
      have hslot' : findEmptySlot k.unrecorded 1 (maxProc - 1) = some i := by
        rw [findEmptySlot_unrecorded, hslot]
      by_cases hnull : (Mm.kmalloc k.heap sizeofProc).2 = 0
      · refine ⟨(k.unrecorded.kmalloc sizeofProc).1, ?_,
          .of_eq rfl rfl (kmalloc_failed hk.heap (by decide) hnull) rfl rfl rfl⟩
        unfold CreateCall.run createProc
        rw [hslot']
        dsimp only
        rw [← Kernel.claimSlot, hk.unrecorded.claim hslot']
        exact if_pos hnull
      · have hall : AllToBeHad k c := by
          rcases hcond with hnone | hz | hall
          · rw [hnone] at hslot
            cases hslot
          · exact absurd hz hnull
          · exact hall
        obtain ⟨k', r, hcall⟩ := hk.unrecorded.returns hslot' hnull hall
        have hdone := ((hk.unrecorded.started rfl hslot' hnull hcall).2).mpr hall
        rw [hfails k' r hcall] at hdone
        cases hdone

theorem create_proc_all_or_nothing_second : ∃ k k₁, Boot sampleImage pagedKernel k ∧
    Run (CreateStep sampleImage) k [(sampleCall, 0xC04000A0)] k₁ ∧
    (AllOrNothing sampleImage k₁ sampleCall ↔ findEmptySlot k₁ 1 (maxProc - 1) = none ∨
      (Mm.kmalloc k₁.heap sizeofProc).2 = 0 ∨ AllToBeHad k₁ sampleCall) := by
  obtain ⟨k, k₁, hboot, hcalls⟩ := pagedKernel_creates
  exact ⟨k, k₁, hboot, hcalls, create_proc_all_or_nothing_iff
    (.of_run hboot pagedKernel_paged sampleImage_linked hcalls)⟩

/-! ## Two calls that succeed -/

/-- What a call that makes the process `p` in slot `i` leaves. -/
structure Made (k k' : Kernel) (i p base : Nat) (framemap : FrameMap) : Prop where
  list : k'.procList = Function.update k.procList i p
  heap : k'.heap = (Mm.kmalloc (Mm.kmalloc k.heap sizeofProc).1 8192).1
  framemap : k'.pmm.framemap = framemap
  directory : (k'.procs p).pageDirectory = kp2v base
  others : ∀ q, q ≠ p → k'.procs q = k.procs q

/-- A call for which all is to be had makes its process. -/
theorem CreateReady.makes {base : Nat} {fm fm₁ : FrameMap} {gotDir : Bool}
    (hk : CreateReady image k) (hslot : findEmptySlot k 1 (maxProc - 1) = some i)
    (hblock : (Mm.kmalloc k.heap sizeofProc).2 = p) (hne : p ≠ 0)
    (hframes : spaceFrames k.pmm.framemap c.stackSize = some (fm, gotDir, true))
    (hdir : Mm.allocPages k.pmm.framemap pmmFlagsDefault 2 = some (base, fm₁)) :
    ∃ k', CreateStep image k (c, p) k' ∧ Made k k' i p base fm := by
  have hclaim := hk.claim hslot
  have hblock' : ((k.claimSlot i).kmalloc sizeofProc).2 = p := by
    rw [hclaim]
    exact hblock
  obtain ⟨k', hcall⟩ := @createProc_returns image c.stackSize k c.entry c.execSize c.heapSize i p
    c.priority _ _ _ hslot hblock' hne hk.space hk.linked hframes
  rw [if_pos rfl] at hcall
  refine ⟨k', hcall, ?_⟩
  obtain ⟨r, hr⟩ : ∃ r, r = p := ⟨_, rfl⟩
  rw [← hr] at hcall
  have hcases := createProc_cases (hk.space.reserved 0 (by decide)) hcall
  cases hcases with
  | noSlot => exact absurd hr.symm hne
  | noBlock => exact absurd hr.symm hne
  | @started i' proc r k₁ k' hslot' hblock₁ hproc hout =>
    obtain rfl := Option.some.inj (hslot'.symm.trans hslot)
    rw [hclaim] at hblock₁
    obtain ⟨rfl, rfl⟩ := Prod.mk.inj hblock₁
    subst hblock
    have hspace : KernelSpace image
        ((k.kmalloc sizeofProc).1.takePid (Mm.kmalloc k.heap sizeofProc).2 c.priority).pmm :=
      ⟨hk.space.reserved, hk.space.empty, hk.space.directory⟩
    have h0 := hspace.reserved 0 (by decide)
    obtain ⟨gotDir', gotTables, hframes', -, -⟩ := hout.frames hspace hk.linked
    have hfm : some (k'.pmm.framemap, gotDir', gotTables) = some (fm, gotDir, true) :=
      hframes'.symm.trans hframes
    simp only [Option.some.injEq, Prod.mk.injEq] at hfm
    have hf := hout.frame h0
    have hothers : ∀ q, q ≠ (Mm.kmalloc k.heap sizeofProc).2 → k'.procs q = k.procs q :=
      fun q hq => (hf.others q hq).trans (Function.update_of_ne hq _ _)
    rcases hout.slot h0 with ⟨hz, -⟩ | ⟨-, hlist, hheap, -⟩
    · exact absurd (hr.symm.trans hz) hne
    · refine ⟨hlist, hheap, hfm.1, ?_, hothers⟩
      cases hout with
      | noStack => exact absurd hr.symm hne
      | noTable => exact absurd hr.symm hne
      | done hbuilt hz hmap =>
        obtain ⟨s₁, s₂, hdir', -, -⟩ := hbuilt
        have hbase := (Pmm.allocPages_eq_some hdir').1
        have hsame : some (_, s₁.framemap) = some (base, fm₁) := hbase.symm.trans hdir
        obtain ⟨rfl, -⟩ := Prod.mk.inj (Option.some.inj hsame)
        rw [createProcFinish_eq]
        simp [Kernel.withSpace, spaceProc, finishedProc]

/-- A call that returns a process, for which all was to be had, records no failure. -/
theorem CreateReady.succeeds {r : Nat} (hk : CreateReady image k)
    (hfailed : k.pmm.failed = false) (h : CreateStep image k (c, r) k') (hne : r ≠ 0)
    (hall : AllToBeHad k c) : k'.pmm.failed = false := by
  have hcases := createProc_cases (hk.space.reserved 0 (by decide)) h
  cases hcases with
  | noSlot _ => exact absurd rfl hne
  | noBlock _ _ => exact absurd rfl hne
  | started hslot hblock hproc _ =>
    rw [hk.claim hslot] at hblock
    obtain ⟨rfl, rfl⟩ := Prod.mk.inj hblock
    exact (hk.started hfailed hslot hproc h).2.2 hall

/-- A process that is there keeps its slot. -/
theorem findEmptySlot_second {l : Nat → Nat} (hlist : k'.procList = Function.update l 1 p) (hp : p ≠ 0)
    (hused : (k'.procs p).procstate ≠ .unused) (hfree : l 2 = 0) :
    findEmptySlot k' 1 (maxProc - 1) = some 2 := by
  have hfirst : k'.procList 1 = p := by
    rw [hlist]
    exact Function.update_self _ _ _
  have hsecond : k'.procList 2 = 0 := by
    rw [hlist, Function.update_of_ne (by decide)]
    exact hfree
  have hkept : ¬ (k'.procList 1 = 0 ∨ (k'.procs (k'.procList 1)).procstate = .unused) := by
    rw [hfirst]
    exact not_or.2 ⟨hp, hused⟩
  rw [show maxProc - 1 = 61 + 1 + 1 from rfl, findEmptySlot, if_neg hkept, findEmptySlot,
    if_pos (Or.inl hsecond)]

/-- Two processes made one after the other, each with a stack of 4096 bytes, and a frame left
for a table. -/
structure TwoMade (k k₁ k₂ : Kernel) : Prop where
  boot : Boot sampleImage pagedKernel k
  first : CreateStep sampleImage k (sampleCall, 0xC04000A0) k₁
  second : CreateStep sampleImage k₁ (sampleCall, 0xC0402150) k₂
  slot : k₁.procList 1 = 0xC04000A0
  list : k₂.procList =
    Function.update (Function.update k.procList 1 0xC04000A0) 2 0xC0402150
  directories : (k₂.procs 0xC04000A0).pageDirectory ≠ (k₂.procs 0xC0402150).pageDirectory
  frame : ∃ fm, Mm.allocPages k₂.pmm.framemap pmmFlagsDefault 1 = some (0x806000, fm)
  failed : k₂.pmm.failed = false

theorem two_made : ∃ k k₁ k₂, TwoMade k k₁ k₂ := by
  obtain ⟨k, h⟩ := pagedKernel_boots
  obtain ⟨fm₁, fm, hdir, hframes, hused⟩ := bootFrames_space
  obtain ⟨fm₁', fm', hdir', hframes', hused'⟩ := spaceFrames_usedTo hused (by decide) (by decide)
    (by decide) (by decide) (show stackPages 4096 = 2 from rfl) (by decide) (by decide)
  obtain ⟨fm'', htable, -⟩ := hused'.default (by decide) (Nat.le_refl 1) (by decide)
  have hready := CreateReady.of_run h.boot pagedKernel_paged sampleImage_linked (.nil k)
  rw [← h.framemap] at hdir hframes
  obtain ⟨k₁, hcall, hmade⟩ := @CreateReady.makes _ _ sampleCall _ _ _ _ _ _ hready h.slot h.block
    (by decide) hframes hdir
  have hok₁ := hready.succeeds h.failed hcall (by decide) ⟨⟨_, hframes⟩, h.stack⟩
  have hready₁ := CreateReady.of_run h.boot pagedKernel_paged sampleImage_linked (.single hcall)
  have hfirst : k₁.procList 1 = 0xC04000A0 := by
    rw [hmade.list]
    exact Function.update_self _ _ _
  have hused := hready₁.slots 1 (by decide) (by decide) (by rw [hfirst]; decide)
  rw [hfirst] at hused
  have hslot₁ := findEmptySlot_second hmade.list (by decide) hused h.empty.2
  rw [← hmade.framemap] at hdir' hframes'
  have hblock' := h.block'
  have hstack' := h.stack'
  rw [← hmade.heap] at hblock' hstack'
  obtain ⟨k₂, hcall', hmade'⟩ := @CreateReady.makes _ _ sampleCall _ _ _ _ _ _ hready₁ hslot₁ hblock'
    (by decide) hframes' hdir'
  have hok₂ := hready₁.succeeds hok₁ hcall' (by decide) ⟨⟨_, hframes'⟩, hstack'⟩
  refine ⟨k, k₁, k₂, h.boot, hcall, hcall', hfirst, ?_, ?_, ⟨fm'', ?_⟩, hok₂⟩
  · rw [hmade'.list, hmade.list]
  · rw [hmade'.directory, hmade'.others _ (by decide), hmade.directory]
    decide
  · rw [hmade'.framemap]
    exact htable

end AllOrNothing

/-! ## A machine of 8 MiB -/

/-- The frames used before and after `kheap_init` where lowmem ends at 8 MiB. -/
def smallStart : FrameMap := fun cell =>
  if cell < 128 ∨ 256 ≤ cell ∧ cell < 28672 then 0xFF#8 else 0#8

def smallFrames : FrameMap := fun cell => if cell < 28672 then 0xFF#8 else 0#8

def smallKernel : Kernel :=
  { sampleKernel 0 with pmm := ⟨setupKernelDirectory sampleImage fun _ => 0, smallFrames, false⟩ }

theorem kheapInit_smallFrames :
    kheapInit (fun _ => 0) smallStart = some (bootHeap, smallFrames) := by
  apply kheapInit_frames (by decide) (by decide +kernel)
  intro f
  have hstart : smallStart.test f = _ := test_full (fun cell => cell < 128 ∨ 256 ≤ cell ∧ cell < 28672) f
  have hsmall : smallFrames.test f = decide (f < 229376) := test_cells 28672 f
  rw [hstart, hsmall, ← Bool.decide_or, decide_eq_decide]
  omega

theorem smallKernel_paged : Paged sampleImage smallKernel.pmm := by
  have hzero : ∀ a, Mem.get32 (fun _ => 0) a = 0 := fun _ => rfl
  refine ⟨⟨fun _ => 0, fun i _ => hzero _, ?_⟩, fun f hf => ?_⟩
  · dsimp only [smallKernel]
  · have hused : smallFrames.test f = decide (f < 8 * 28672) := test_cells 28672 f
    rw [show smallKernel.pmm.framemap = smallFrames from rfl, hused, decide_eq_true (by omega)]

/-- Without a low frame there is no directory. -/
theorem not_allToBeHad {k : Kernel} {c : CreateCall} (hlow : LowExhausted k.pmm.framemap) :
    ¬ AllToBeHad k c := by
  rintro ⟨⟨framemap, hframes⟩, -⟩
  have h0 := hlow 0 (by decide)
  unfold spaceFrames at hframes
  obtain ⟨⟨base, fm₁⟩, hdir, hrest⟩ := Option.bind_eq_some_iff.1 hframes
  obtain ⟨⟨phys, fm₂⟩, -, hrest⟩ := Option.bind_eq_some_iff.1 hrest
  obtain ⟨⟨fm₃, ok⟩, -, hlast⟩ := Option.bind_eq_some_iff.1 hrest
  have hbase : base ≠ 0 := by
    have hgot := congrArg (fun r => r.2.1) (Option.some.inj hlast)
    simpa using hgot
  have hnew := allocPages_allocated h0 hdir hbase
  rcases allocPages_lowmem h0 (by decide) hdir with hbelow | ⟨hz, -⟩
  · have hfree := hnew.free (base / 4096) (Nat.le_refl _) (by omega)
    simp only [kernIdentityPhysEnd] at hbelow
    rw [hlow (base / 4096) (by simp only [lowFrames]; omega)] at hfree
    cases hfree
  · exact hbase hz

/-- On such a machine the first `create_proc` loses a PID. -/
theorem create_proc_loses_pid : ∃ k, Boot sampleImage smallKernel k ∧
    CreateReady sampleImage k ∧ ¬ AllOrNothing sampleImage k sampleCall := by
  have heval : (kernelProcInit sampleImage (procInit smallKernel)).map (fun k =>
      (findEmptySlot k 1 (maxProc - 1), (Mm.kmalloc k.heap sizeofProc).2)) =
      some (some 1, 0xC04000A0) := by
    decide +kernel
  obtain ⟨k, hk, heq⟩ := Option.map_eq_some_iff.1 heval
  obtain ⟨hslot, hblock⟩ := Prod.mk.inj heq
  have hboot : Boot sampleImage smallKernel k :=
    ⟨⟨_, smallStart, by decide, kheapInit_smallFrames⟩, rfl, hk⟩
  have hready := CreateReady.of_run hboot smallKernel_paged sampleImage_linked (.nil k)
  have hlow : LowExhausted k.pmm.framemap := by
    intro f hf
    have hused : smallFrames.test f = decide (f < 8 * 28672) := test_cells 28672 f
    rw [hboot.booted.framemap]
    exact hused.trans (decide_eq_true (by simp only [lowFrames] at hf; omega))
  exact ⟨k, hboot, hready, hready.not_allOrNothing hslot (by rw [hblock]; decide) (not_allToBeHad hlow)⟩

end BrownieOS.Process
