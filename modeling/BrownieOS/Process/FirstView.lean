import BrownieOS.Process.StackRegion

/-!
# What a new process finds in its registers and on its stack

`create_proc` writes seven fields of the saved context and no byte of the stack. The block of
the `proc_t` comes from `kmalloc` and the frames come from `alloc_pages`, neither of which clears
anything: the other six registers and the whole stack hold what was left there.
-/
namespace BrownieOS.Process

open BrownieOS.Lib BrownieOS.Lib.Word32 BrownieOS.Core BrownieOS.Mm

/-- Two states that differ in what free blocks of the heap and free frames hold, and in
nothing else. -/
structure StaleTwin (k k₂ : Kernel) : Prop where
  framemap : k₂.pmm.framemap = k.pmm.framemap
  failed : k₂.pmm.failed = k.pmm.failed
  mem : ∀ f, k.pmm.framemap.test f = true → k.pmm.mem.SameFrame k₂.pmm.mem f
  heap : k₂.heap = k.heap
  records : ∀ p ∈ allocatedBlocks k.heap, k₂.procs p = k.procs p
  procList : k₂.procList = k.procList
  pidCtr : k₂.pidCtr = k.pidCtr
  currentProc : k₂.currentProc = k.currentProc
  cr3 : k₂.cr3 = k.cr3

/-- What a process has when it is first switched to: the frame that `proc_context_to_regs`
fills, and the bytes of its stack's pages that user mode reaches. -/
structure FirstView where
  regs : IntRegs → IntRegs
  stack : Nat → Option Byte

def firstView (k : Kernel) (p : Nat) : FirstView where
  regs := fun regs => procContextToRegs regs (k.procs p).context
  stack := fun va =>
    if stackBottomAl (k.procs p).stackSize ≤ va ∧ va < stackTopAl ∧
        userAccessible k.pmm.mem (kv2p (k.procs p).pageDirectory) va = true then
      (Mm.translate k.pmm.mem (kv2p (k.procs p).pageDirectory) va).map k.pmm.mem
    else none

/-- The first view does not depend on what is left in free memory. -/
def SameFirstView (image : KernelImage) (k : Kernel) (c : CreateCall) : Prop :=
  ∀ k₂, StaleTwin k k₂ → ∀ k' p k₂' p₂, CreateStep image k (c, p) k' →
    CreateStep image k₂ (c, p₂) k₂' → p ≠ 0 → p₂ = p ∧ firstView k₂' p₂ = firstView k' p

/-- There is a slot, a block for the `proc_t`, and a frame for every table. -/
def MakesProcess (k : Kernel) (c : CreateCall) : Prop :=
  (∃ i, findEmptySlot k 1 (maxProc - 1) = some i) ∧ (Mm.kmalloc k.heap sizeofProc).2 ≠ 0 ∧
    ∃ framemap gotDir, spaceFrames k.pmm.framemap c.stackSize = some (framemap, gotDir, true)

section Views

variable {image : KernelImage} {k k' k₂ : Kernel} {c : CreateCall} {p : Nat}

/-- The scan for a slot looks at the table and at the states of its processes. -/
theorem findEmptySlot_congr (hlist : k₂.procList = k.procList)
    (hstate : ∀ q, (k₂.procs q).procstate = (k.procs q).procstate) :
    ∀ n i, findEmptySlot k₂ i n = findEmptySlot k i n := by
  intro n
  induction n with
  | zero => exact fun _ => rfl
  | succ n ih =>
    intro i
    rw [findEmptySlot, findEmptySlot, ih, hlist, hstate]

/-- The block that `kmalloc` hands out was free. -/
theorem kmalloc_new {heap : Heap} {size : Nat} (h : (∃ bs, Layout heap bs) ∨ Exhausted heap)
    (hsize : size ≠ 0) (hne : (Mm.kmalloc heap size).2 ≠ 0) :
    (Mm.kmalloc heap size).2 ∉ allocatedBlocks heap := by
  rcases h with ⟨bs, hl⟩ | hex
  · have hout := alloc_outcome hl hsize
    rw [Mm.kmalloc] at hne ⊢
    generalize alloc heap size = result at hout hne ⊢
    cases hout with
    | none _ => exact absurd rfl hne
    | @block b heap' hfit _ =>
      intro hmem
      unfold allocatedBlocks at hmem
      obtain ⟨header, hheader, heq⟩ := List.mem_map.1 hmem
      obtain ⟨hentry, hused⟩ := List.mem_filter.1 hheader
      rw [hl.headers] at hentry
      obtain ⟨b', hb', rfl⟩ := List.mem_map.1 hentry
      have h₁ := hl.bounds hb'
      have h₂ := hl.bounds hfit.listed
      -- the two headers are one, and its tag says used and free
      rw [wadd_of_lt (by simp only [sizeofHeader]; omega)] at heq
      have hsame : b'.addr = b.addr := by
        simp only [sizeofHeader] at heq
        omega
      have htag := (hl.tags b hfit.listed).used
      rw [hfit.free] at htag
      rw [hsame, htag] at hused
      cases hused
  · rw [kmalloc_exhausted hex] at hne
    exact absurd rfl hne

/-- What a call that makes a process has found, and the context it leaves in the block. -/
theorem CreateReady.made (hk : CreateReady image k) (hcall : CreateStep image k (c, p) k')
    (hp : p ≠ 0) : MakesProcess k c ∧ p = (Mm.kmalloc k.heap sizeofProc).2 ∧
      (k'.procs p).context = initialContext (k.procs p).context c.entry := by
  obtain ⟨hres, i, hslot, hspace, hout⟩ := hk.outcome hcall hp
  obtain ⟨gotDir, gotTables, hframes, hret, -⟩ := hout.frames hspace hk.linked
  cases gotTables with
  | false => exact absurd hret hp
  | true =>
    rcases hout.slot (hspace.reserved 0 (by decide)) with ⟨hz, -⟩ | ⟨-, -, -, dir, -, hrec⟩
    · exact absurd hz hp
    · refine ⟨⟨⟨i, hslot⟩, hres ▸ hp, _, gotDir, hframes⟩, hres, ?_⟩
      rw [hrec]
      simp [finishedProc, spaceProc, Kernel.takePid, Kernel.kmalloc]

/-- Where there is a slot, a block and the frames, the call returns a process. -/
theorem CreateReady.makesProcess (hk : CreateReady image k) (h : MakesProcess k c) :
    ∃ k', CreateStep image k (c, (Mm.kmalloc k.heap sizeofProc).2) k' := by
  obtain ⟨⟨i, hslot⟩, hne, framemap, gotDir, hframes⟩ := h
  have hblock : ((k.claimSlot i).kmalloc sizeofProc).2 = (Mm.kmalloc k.heap sizeofProc).2 := by
    rw [hk.createProc_block hslot]
    rfl
  obtain ⟨k', hcall⟩ := @createProc_returns image c.stackSize k c.entry c.execSize c.heapSize i _
    c.priority _ _ _ hslot hblock hne hk.space hk.linked hframes
  exact ⟨k', hcall⟩

/-! ## The stack -/

/-- The bytes of a stack that is mapped into a new directory are those that its frames held
while they were free. -/
theorem NewDirectory.stackHeld {s s₂ s' t : Pmm} {D dir stackSize phys va : Nat}
    (hk : KernelSpace image s) (hl : image.Linked) (hn : NewDirectory image D s s₂)
    (hptr : kv2p dir = 4096 * D) (hsize : stackSize ≤ procStackTop)
    (hstack : s₂.allocPages pmmFlagsHighmem (stackPages stackSize) = some (s', phys))
    (hmap : mapStack dir stackSize phys s' = some (t, true))
    (hlow : stackBottomAl stackSize ≤ va) (hhigh : va < 0xC0000000) :
    Mm.translate t.mem (4096 * D) va = some (phys + (va - stackBottomAl stackSize)) ∧
      s.framemap.test ((phys + (va - stackBottomAl stackSize)) / 4096) = false ∧
      t.mem (phys + (va - stackBottomAl stackSize)) =
        s.mem (phys + (va - stackBottomAl stackSize)) := by
  have h0 := hk.reserved 0 (by decide)
  obtain ⟨hbottom, hend⟩ := stackBottomAl_of_le hsize
  obtain ⟨-, hpages, hnew, -⟩ := Pmm.allocPages_highmem (hn.grows 0 h0) hstack
  have hns := hn.alloc h0 hstack
  obtain ⟨-, hw, -⟩ := mapStack_own hptr (hns.own hk hl) (by omega) hmap
  have hin := hnew.inside
  have halign := hnew.aligned
  simp only [nFrames] at hin
  obtain ⟨F, hF⟩ : ∃ F, F = (phys + (va - stackBottomAl stackSize)) / 4096 := ⟨_, rfl⟩
  have hfree₂ := hnew.free F (by omega) (by omega)
  have hmarked : s'.framemap.test F = true := by
    rw [hnew.marked, Bitmap.test_setRange (by decide)]
    simp only [Bool.or_eq_true, decide_eq_true_eq]
    left
    omega
  have hfree : s.framemap.test F = false := by
    by_contra hused
    rw [hn.grows F (by simpa using hused)] at hfree₂
    cases hfree₂
  have hne : ∀ f, s₂.framemap.test f = true → F ≠ f := by
    rintro f hf rfl
    rw [hfree₂] at hf
    cases hf
  rw [← hF]
  refine ⟨?_, hfree, ?_⟩
  · unfold mapStack at hmap
    rw [if_neg (by omega)] at hmap
    obtain ⟨hexact, -⟩ := procMapLoop_exact (hns.processDirectory hk hl hptr) (by omega) halign
      (by omega) (by omega) hmap
    have hpage := (hexact.mapped ((va - stackBottomAl stackSize) / 4096) (by omega)).translates
    have hva : stackBottomAl stackSize + 4096 * ((va - stackBottomAl stackSize) / 4096) +
        va % 4096 = va := by omega
    have hadd := @Mm.translate_add t.mem (4096 * D)
      (stackBottomAl stackSize + 4096 * ((va - stackBottomAl stackSize) / 4096)) (va % 4096) (by omega)
    rw [hva, hpage] at hadd
    rw [hadd, Option.map_some]
    apply congrArg some
    omega
  · -- the frame is none of those that the mapping writes
    have htable : ¬ TableFrames image s'.framemap F := by
      rintro (hspare | ⟨i, h₀, h₁, rfl⟩)
      · rw [hmarked] at hspare
        cases hspare
      · rw [hk.reserved _ (image.frames_low h₀ h₁).2.1] at hfree
        cases hfree
    have hkept := (hns.others F (hne D hn.used) (hne _ hn.used')).trans
      (hw.others F (hne D hn.used) (hne _ hn.used') htable)
    exact hkept _ hF.symm

/-- The bytes of a new stack are those that its frames held while they were free. -/
theorem DirectoryOutcome.stackHeld {procIdx entry stackSize va : Nat}
    (h : DirectoryOutcome image k p procIdx entry stackSize k' p) (hne : p ≠ 0)
    (hk : KernelSpace image k.pmm) (hl : image.Linked) (hsize : stackSize ≤ procStackTop)
    (hlow : stackBottomAl stackSize ≤ va) (hhigh : va < 0xC0000000) :
    ∃ pa, Mm.translate k'.pmm.mem (kv2p (k'.procs p).pageDirectory) va = some pa ∧
      k.pmm.framemap.test (pa / 4096) = false ∧ k'.pmm.mem pa = k.pmm.mem pa := by
  generalize hr : p = r at h
  cases h with
  | noStack => exact absurd hr hne
  | noTable => exact absurd hr hne
  | @done dirPhys phys s s' hbuilt hz hmap =>
    subst hr
    obtain ⟨s₁, s₂, hdir, hclone, hstack⟩ := hbuilt
    obtain ⟨D, m', rfl, hptr, hm', hn⟩ := newDirectory_of_clone hk hl hdir
    rw [hm'] at hclone
    obtain rfl := Option.some.inj hclone
    have hheld := hn.stackHeld hk hl hptr hsize hstack hmap hlow hhigh
    rw [createProcFinish_eq]
    refine ⟨_, ?_, hheld.2⟩
    simpa [Kernel.withSpace, finishedProc, spaceProc, hptr] using hheld.1

/-- The same of a call that returns a process. -/
theorem CreateReady.stackHeld {va : Nat} (hk : CreateReady image k)
    (hcall : CreateStep image k (c, p) k') (hne : p ≠ 0) (hsize : c.stackSize ≤ procStackTop)
    (hlow : stackBottomAl c.stackSize ≤ va) (hhigh : va < 0xC0000000) :
    ∃ pa, Mm.translate k'.pmm.mem (kv2p (k'.procs p).pageDirectory) va = some pa ∧
      k.pmm.framemap.test (pa / 4096) = false ∧ k'.pmm.mem pa = k.pmm.mem pa := by
  obtain ⟨-, i, -, hspace, hout⟩ := hk.outcome hcall hne
  exact hout.stackHeld hne hspace hk.linked hsize hlow hhigh

/-! ## The registers -/

/-- The state with another register left in the block that the `proc_t` is to get. -/
def Kernel.withEax (k : Kernel) (p eax : Nat) : Kernel :=
  k.setProc p { k.procs p with context := { (k.procs p).context with eax := eax } }

theorem CreateReady.staleTwin (hk : CreateReady image k)
    (hne : (Mm.kmalloc k.heap sizeofProc).2 ≠ 0) (eax : Nat) :
    StaleTwin k (k.withEax (Mm.kmalloc k.heap sizeofProc).2 eax) := by
  have hnew := kmalloc_new hk.heap (by decide) hne
  refine ⟨rfl, rfl, fun f _ => .refl _ f, rfl, fun q hq => ?_, rfl, rfl, rfl, rfl⟩
  refine Function.update_of_ne (fun he => hnew ?_) _ _
  rw [← he]
  exact hq

theorem withEax_procstate (q eax : Nat) :
    ((k.withEax p eax).procs q).procstate = (k.procs q).procstate := by
  unfold Kernel.withEax
  by_cases hq : q = p
  · rw [hq, Kernel.setProc_procs_self]
  · rw [Kernel.setProc_procs_of_ne _ _ _ _ hq]

theorem CreateReady.withEax (hk : CreateReady image k) (p eax : Nat) :
    CreateReady image (k.withEax p eax) := by
  refine ⟨hk.linked, ⟨hk.space.reserved, hk.space.empty, hk.space.directory⟩, hk.heap, ?_⟩
  intro i h₀ h₁ hi
  rw [withEax_procstate]
  exact hk.slots i h₀ h₁ hi

/-- A new process is shown the registers that were left in the block of its `proc_t`. -/
theorem CreateReady.shows_stale (hk : CreateReady image k) (hmakes : MakesProcess k c) :
    ¬ SameFirstView image k c := by
  intro hsame
  have hne := hmakes.2.1
  obtain ⟨p, hp⟩ : ∃ p, p = (Mm.kmalloc k.heap sizeofProc).2 := ⟨_, rfl⟩
  obtain ⟨eax, heax⟩ : ∃ eax, eax ≠ (k.procs p).context.eax := ⟨_, Nat.succ_ne_self _⟩
  have hready := hk.withEax p eax
  have hmakes₂ : MakesProcess (k.withEax p eax) c := by
    obtain ⟨⟨i, hslot⟩, hrest⟩ := hmakes
    have hscan := findEmptySlot_congr (show (k.withEax p eax).procList = k.procList from rfl)
      (fun q => withEax_procstate q eax) (maxProc - 1) 1
    exact ⟨⟨i, hscan.trans hslot⟩, hrest⟩
  obtain ⟨k', hcall⟩ := hk.makesProcess hmakes
  obtain ⟨k₂', hcall₂⟩ := hready.makesProcess hmakes₂
  rw [show (k.withEax p eax).heap = k.heap from rfl] at hcall₂
  have htwin := hk.staleTwin hne eax
  rw [← hp] at hcall hcall₂ hne htwin
  obtain ⟨-, hview⟩ := hsame _ htwin k' p k₂' p hcall hcall₂ hne
  have hregs : (k₂'.procs p).context.eax = (k'.procs p).context.eax :=
    congrArg (fun v => (v.regs ⟨0, 0, 0, 0, 0, 0, 0, 0, 0, 0, 0, 0, 0, 0, 0⟩).eax) hview
  rw [(hk.made hcall hne).2.2, (hready.made hcall₂ hne).2.2, Kernel.withEax,
    Kernel.setProc_procs_self] at hregs
  exact heax hregs

/-- The first view is the same whatever free memory holds exactly if no process is made. -/
theorem same_first_view_iff (hk : CreateReady image k) :
    SameFirstView image k c ↔ ¬ MakesProcess k c := by
  constructor
  · exact fun hsame hmakes => hk.shows_stale hmakes hsame
  · intro hno k₂ _ k' p _ _ hcall _ hp
    exact absurd (hk.made hcall hp).1 hno

theorem same_first_view_second_call : ∃ k k₁, Boot sampleImage pagedKernel k ∧
    Run (CreateStep sampleImage) k [(sampleCall, 0xC04000A0)] k₁ ∧
    (SameFirstView sampleImage k₁ sampleCall ↔ ¬ MakesProcess k₁ sampleCall) := by
  obtain ⟨k, k₁, hboot, hcalls⟩ := pagedKernel_creates
  exact ⟨k, k₁, hboot, hcalls, same_first_view_iff
    (.of_run hboot pagedKernel_paged sampleImage_linked hcalls)⟩

/-- The first process after boot. -/
theorem first_view_differs : ∃ k, Boot sampleImage pagedKernel k ∧
    ¬ SameFirstView sampleImage k sampleCall := by
  obtain ⟨k, h⟩ := pagedKernel_boots
  obtain ⟨-, framemap, -, hframes, -⟩ := bootFrames_space
  rw [← h.framemap] at hframes
  have hready := CreateReady.of_run h.boot pagedKernel_paged sampleImage_linked (.nil k)
  refine ⟨k, h.boot, hready.shows_stale ⟨⟨1, h.slot⟩, ?_, framemap, true, hframes⟩⟩
  rw [h.block]
  decide

end Views

end BrownieOS.Process
