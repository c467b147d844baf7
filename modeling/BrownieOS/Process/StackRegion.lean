import BrownieOS.Core.Syscall
import BrownieOS.Process.AllOrNothing
import BrownieOS.Process.OwnTables

/-!
# The user stack

`create_proc` subtracts the size from `PROC_STACK_TOP` and rounds both ends to pages. Up to
the whole of `PROC_STACK_TOP` the pages end at 3 GiB and hold what was asked for. Above it
the subtraction wraps, and nothing checks that: the largest sizes get a stack of one page.
-/
namespace BrownieOS.Process

open BrownieOS.Lib BrownieOS.Lib.Word32 BrownieOS.Core BrownieOS.Mm

/-- The call has mapped the page of this address: the directory of the process `p` has a page
there that the kernel's directory, of which it is a clone, did not have. -/
def StackPage (image : KernelImage) (k k' : Kernel) (p va : Nat) : Prop :=
  ∃ found, walk k'.pmm.mem (kv2p (k'.procs p).pageDirectory) va = some found ∧
    walk k.pmm.mem (kv2p image.dir) va ≠ some found

/-- The pages mapped for a stack of `stackSize` bytes are those of `[bottom, top)`. -/
structure StackRegion (image : KernelImage) (k k' : Kernel) (p stackSize bottom top : Nat) : Prop where
  aligned : bottom % 4096 = 0
  ends : top = 0xC0000000
  pages : ∀ va < 4294967296, StackPage image k k' p va ↔ bottom ≤ va ∧ va < top
  user : ∀ va, bottom ≤ va → va < top →
    UserReachable k'.pmm.mem (kv2p (k'.procs p).pageDirectory) va
  bytes : ∀ va < procStackTop, procStackTop ≤ va + stackSize → bottom ≤ va ∧ va < top
  useresp : bottom ≤ (k'.procs p).context.useresp ∧ (k'.procs p).context.useresp < top
  tight : procStackTop < bottom + 4096 + stackSize ∧ top < procStackTop + 4096

/-- A process that the call returns has a stack of the size asked for, and for a size that
does not fit below `PROC_STACK_TOP` it returns NULL. -/
def StackFits (image : KernelImage) (k : Kernel) (c : CreateCall) : Prop :=
  (∀ k' p, CreateStep image k (c, p) k' → p ≠ 0 →
    ∃ bottom top, StackRegion image k k' p c.stackSize bottom top) ∧
  (procStackTop < c.stackSize → ∃ k', CreateStep image k (c, 0) k')

section Region

variable {image : KernelImage} {k k' : Kernel} {s s' : Pmm} {dir D p stackSize phys : Nat}
  {c : CreateCall}

theorem stackBottomAl_of_le (h : stackSize ≤ procStackTop) :
    stackBottomAl stackSize = (procStackTop - stackSize) / 4096 * 4096 ∧
      stackBottomAl stackSize + 4096 * stackPages stackSize = 0xC0000000 := by
  have htop : stackTopAl = 0xC0000000 := by decide
  have hsub : wsub procStackTop stackSize = procStackTop - stackSize := by
    simp only [wsub, procStackTop] at h ⊢
    omega
  have hbottom : stackBottomAl stackSize = (procStackTop - stackSize) / 4096 * 4096 := by
    rw [stackBottomAl, hsub]
  refine ⟨hbottom, ?_⟩
  rw [stackPages, htop, hbottom]
  simp only [wsub, pageSize, procStackTop]
  omega

/-- The walk to an address is the walk to its page. -/
theorem walk_page (m : Mem) (cr3 va : Nat) : walk m cr3 va = walk m cr3 (va / 4096 * 4096) := by
  have hidx : pageDirIdx va = pageDirIdx (va / 4096 * 4096) := by
    simp only [pageDirIdx]
    omega
  have htbl : pageTblIdx va = pageTblIdx (va / 4096 * 4096) := by
    simp only [pageTblIdx]
    omega
  simp only [walk, hidx, htbl]

/-- Above 3 GiB it translates as the kernel's directory does. -/
theorem NewDirectory.kernelWalk (hk : KernelSpace image s) (hl : image.Linked)
    (hn : NewDirectory image D s s') {va : Nat} (hkern : 0xC0000000 ≤ va) (hva : va < 4294967296) :
    walk s'.mem (4096 * D) va = walk s.mem (kv2p image.dir) va := by
  have hi := pageDirIdx_lt hva
  have hidx : 768 ≤ pageDirIdx va := by
    simp only [pageDirIdx]
    omega
  obtain ⟨-, hapart⟩ := hk.apart hl hn.fresh
  obtain ⟨hD, hD'⟩ := hapart _ hidx hi
  rw [image.kv2p_dir, walk_frames, walk_frames, hn.entries _ hi, if_pos hidx, hk.entry_frame hidx hi,
    (hn.others _ hD hD').word (pageTblIdx_lt va)]

/-- Below 3 GiB it translates nothing. -/
theorem NewDirectory.userWalk (hn : NewDirectory image D s s') {va : Nat} (huser : va < 0xC0000000) :
    walk s'.mem (4096 * D) va = none := by
  have hidx : pageDirIdx va < 768 := by
    simp only [pageDirIdx]
    omega
  have hzero : (PageDirEntry.decode 0).present = false := rfl
  rw [walk_frames, hn.entries _ (by omega), if_neg (show ¬ 768 ≤ pageDirIdx va by omega), hzero,
    if_neg Bool.false_ne_true]

/-- A page that a new table holds is none of the kernel's. -/
theorem NewDirectory.fresh_page {t : Pmm} (hk : KernelSpace image s) (hn : NewDirectory image D s s')
    {va : Nat} (huser : va < 0xC0000000) (htable : TableFrom s' t D (pageDirIdx va))
    {found : PageDirEntry × Page} (hfound : walk t.mem (4096 * D) va = some found) :
    walk s.mem (kv2p image.dir) va ≠ some found := by
  have hidx : pageDirIdx va < 768 := by
    simp only [pageDirIdx]
    omega
  have habsent : (PageDirEntry.decode (s'.mem.word D (pageDirIdx va))).present = false := by
    rw [hn.entries _ (by omega), if_neg (by omega)]
    rfl
  have hentry : found.1 = .decode (t.mem.word D (pageDirIdx va)) ∧ found.1.present = true := by
    rw [walk_frames] at hfound
    split at hfound
    · rename_i hp
      split at hfound
      · cases hfound
        exact ⟨rfl, hp⟩
      · cases hfound
    · cases hfound
  -- the kernel's entry has frame 0, which is never free
  intro hkernel
  have hframe : found.1.frame = 0 := by
    rw [image.kv2p_dir, walk_frames] at hkernel
    split at hkernel
    · split at hkernel
      · cases hkernel
        exact hk.empty _ hidx
      · cases hkernel
    · cases hkernel
  rw [hentry.1] at hframe
  cases htable with
  | none _ hnone =>
    rw [← hentry.1, hentry.2] at hnone
    cases hnone
  | kept hpresent _ _ =>
    rw [habsent] at hpresent
    cases hpresent
  | fresh _ _ hfree _ =>
    rw [hframe] at hfree
    exact absurd (hfree.symm.trans (hn.grows 0 (hk.reserved 0 (by decide)))) (by decide)

/-- A stack that fits, mapped into a new directory. -/
theorem NewDirectory.stackMapped (hk : KernelSpace image s) (hl : image.Linked)
    (hn : NewDirectory image D s s') (hptr : kv2p dir = 4096 * D) (hsize : stackSize ≤ procStackTop)
    (hpages : stackPages stackSize ≠ 0) (hphys : phys % 4096 = 0)
    (hfit : phys + 4096 * stackPages stackSize ≤ 4294967296) {t : Pmm}
    (hmap : mapStack dir stackSize phys s' = some (t, true)) :
    (∀ va, stackBottomAl stackSize ≤ va → va < 0xC0000000 → UserReachable t.mem (4096 * D) va) ∧
    ∀ va < 4294967296, (∃ found, walk t.mem (4096 * D) va = some found ∧
      walk s.mem (kv2p image.dir) va ≠ some found) ↔
        stackBottomAl stackSize ≤ va ∧ va < 0xC0000000 := by
  obtain ⟨hbottom, hend⟩ := stackBottomAl_of_le hsize
  unfold mapStack at hmap
  rw [if_neg hpages] at hmap
  obtain ⟨hexact, -⟩ := procMapLoop_exact (hn.processDirectory hk hl hptr) (by omega) hphys
    (by omega) hfit hmap
  have hinside : ∀ va, stackBottomAl stackSize ≤ va → va < 0xC0000000 →
      UserReachable t.mem (4096 * D) va := by
    intro va h₀ h₁
    have hpage := (hexact.mapped ((va - stackBottomAl stackSize) / 4096) (by omega)).user
    have hva : stackBottomAl stackSize + 4096 * ((va - stackBottomAl stackSize) / 4096) =
        va / 4096 * 4096 := by omega
    rw [hva] at hpage
    refine ⟨h₁, ?_⟩
    rw [userAccessible, walk_page]
    exact hpage
  refine ⟨hinside, fun va hva => ⟨?_, ?_⟩⟩
  · rintro ⟨found, hfound, hdiff⟩
    by_contra hout
    by_cases hkern : 0xC0000000 ≤ va
    · apply hdiff
      rw [← hfound, hexact.kernelWalks va hkern hva, hn.kernelWalk hk hl hkern hva]
    · have hnone := hexact.unmapped va (by omega) (by omega) (hn.userWalk (by omega))
      rw [hnone] at hfound
      cases hfound
  · rintro ⟨h₀, h₁⟩
    have hreach := (hinside va h₀ h₁).2
    rw [userAccessible, Option.any_eq_true] at hreach
    obtain ⟨found, hfound, -⟩ := hreach
    exact ⟨found, hfound, hn.fresh_page hk h₁ (hexact.tables _ (pageDirIdx_lt hva)) hfound⟩

/-- What follows the PID, where the size fits. -/
theorem DirectoryOutcome.stackRegion {procIdx entry : Nat}
    (h : DirectoryOutcome image k p procIdx entry stackSize k' p) (hne : p ≠ 0)
    (hk : KernelSpace image k.pmm) (hl : image.Linked) (hsize : stackSize ≤ procStackTop) :
    StackRegion image k k' p stackSize (stackBottomAl stackSize) 0xC0000000 := by
  have h0 := hk.reserved 0 (by decide)
  obtain ⟨hbottom, hend⟩ := stackBottomAl_of_le hsize
  generalize hr : p = r at h
  cases h with
  | noStack => exact absurd hr hne
  | noTable => exact absurd hr hne
  | @done dirPhys phys s s' hbuilt hz hmap =>
    subst hr
    have hpages := (hbuilt.stack h0).2
    obtain ⟨D, -, hptr, hn⟩ := newDirectory_of_built hk hl hbuilt
    obtain ⟨s₁, s₂, hdir, hclone, hstack⟩ := hbuilt
    have h₁ := (Pmm.allocPages_grows h0 hdir).used 0 h0
    have h₂ := (clonePageDir_grows
      (s := { s₁ with mem := s₁.mem.fill (kv2p (kp2v dirPhys)) 8192 0 }) h₁ hclone).used 0 h₁
    obtain ⟨-, -, hnew, -⟩ := Pmm.allocPages_highmem h₂ hstack
    have hin := hnew.inside
    have halign := hnew.aligned
    simp only [nFrames] at hin
    have hmapped := hn.stackMapped hk hl hptr hsize hpages halign (by omega) hmap
    obtain ⟨hinside, hregion⟩ := hn.stackMapped hk hl hptr hsize hpages halign (by omega) hmap
    rw [createProcFinish_eq]
    have hrecord : (Function.update (k.withSpace p (kp2v dirPhys) stackSize s').procs p
        (finishedProc ((k.withSpace p (kp2v dirPhys) stackSize s').procs p) entry
          (Mm.kmalloc (k.withSpace p (kp2v dirPhys) stackSize s').heap 8192).2)) p =
        finishedProc (spaceProc (k.procs p) (kp2v dirPhys) stackSize) entry
          (Mm.kmalloc k.heap 8192).2 := by
      simp [Kernel.withSpace]
    constructor
    · omega
    · rfl
    · intro va hva
      unfold StackPage
      dsimp only
      rw [hrecord]
      dsimp only [finishedProc, spaceProc]
      rw [hptr]
      exact hregion va hva
    · intro va h₃ h₄
      dsimp only
      rw [hrecord]
      dsimp only [finishedProc, spaceProc]
      rw [hptr]
      exact hinside va h₃ h₄
    · simp only [procStackTop] at hsize hbottom ⊢
      omega
    · dsimp only
      rw [hrecord]
      dsimp only [finishedProc, initialContext]
      simp only [procStackTop] at hsize hbottom ⊢
      omega
    · simp only [procStackTop] at hsize hbottom ⊢
      omega

/-- What the call finds before it comes to the stack does not depend on the size. -/
theorem CreateReady.createProc_block {i : Nat} (hk : CreateReady image k)
    (hslot : findEmptySlot k 1 (maxProc - 1) = some i) :
    (k.claimSlot i).kmalloc sizeofProc = k.kmalloc sizeofProc := by
  rw [hk.claim hslot]

/-- The call returns NULL exactly for want of a slot, of a block or of a table. -/
theorem CreateReady.returns_null_iff (hk : CreateReady image k) :
    (∃ k', CreateStep image k (c, 0) k') ↔
      findEmptySlot k 1 (maxProc - 1) = none ∨ (Mm.kmalloc k.heap sizeofProc).2 = 0 ∨
        ∃ framemap gotDir, spaceFrames k.pmm.framemap c.stackSize = some (framemap, gotDir, false) := by
  constructor
  · rintro ⟨k', hcall⟩
    have hcases := createProc_cases (hk.space.reserved 0 (by decide)) hcall
    cases hcases with
    | noSlot hnone => exact Or.inl hnone
    | noBlock hslot hnull =>
      rw [hk.createProc_block hslot] at hnull
      exact Or.inr (Or.inl hnull)
    | @started i p r k₁ k' hslot hblock hne hout =>
      right
      right
      rw [hk.createProc_block hslot] at hblock
      obtain ⟨rfl, rfl⟩ := Prod.mk.inj hblock
      have hspace : KernelSpace image
          ((k.kmalloc sizeofProc).1.takePid (Mm.kmalloc k.heap sizeofProc).2 c.priority).pmm :=
        ⟨hk.space.reserved, hk.space.empty, hk.space.directory⟩
      obtain ⟨gotDir, gotTables, hframes, hr, -⟩ := hout.frames hspace hk.linked
      cases gotTables with
      | false => exact ⟨_, gotDir, hframes⟩
      | true => exact absurd hr.symm hne
  · intro hcond
    cases hslot : findEmptySlot k 1 (maxProc - 1) with
    | none =>
      refine ⟨k, ?_⟩
      unfold CreateStep createProc
      rw [hslot]
    | some i =>
      by_cases hnull : (Mm.kmalloc k.heap sizeofProc).2 = 0
      · refine ⟨(k.kmalloc sizeofProc).1, ?_⟩
        unfold CreateStep createProc
        rw [hslot]
        dsimp only
        rw [← Kernel.claimSlot, hk.createProc_block hslot]
        exact if_pos hnull
      · rw [hslot] at hcond
        obtain ⟨framemap, gotDir, hframes⟩ := (hcond.resolve_left (by simp)).resolve_left hnull
        have hblock : ((k.claimSlot i).kmalloc sizeofProc).2 = (Mm.kmalloc k.heap sizeofProc).2 := by
          rw [hk.createProc_block hslot]
          rfl
        obtain ⟨k', hcall⟩ := @createProc_returns image c.stackSize k c.entry c.execSize c.heapSize i _
          c.priority _ _ _ hslot hblock hnull hk.space hk.linked hframes
        exact ⟨k', hcall⟩

/-- What a call that returns a process has found: a slot, the block, and then all frames. -/
theorem CreateReady.outcome (hk : CreateReady image k) (hcall : CreateStep image k (c, p) k')
    (hne : p ≠ 0) : p = (Mm.kmalloc k.heap sizeofProc).2 ∧
      ∃ i, findEmptySlot k 1 (maxProc - 1) = some i ∧
        KernelSpace image ((k.kmalloc sizeofProc).1.takePid p c.priority).pmm ∧
        DirectoryOutcome image ((k.kmalloc sizeofProc).1.takePid p c.priority) p i c.entry
          c.stackSize k' p := by
  have hcases := createProc_cases (hk.space.reserved 0 (by decide)) hcall
  generalize hr : p = r at hcases
  cases hcases with
  | noSlot => exact absurd hr hne
  | noBlock => exact absurd hr hne
  | @started i proc r k₁ k' hslot hblock hproc hout =>
    subst hr
    rw [hk.createProc_block hslot] at hblock
    obtain ⟨rfl, rfl⟩ := Prod.mk.inj hblock
    have hspace : KernelSpace image
        ((k.kmalloc sizeofProc).1.takePid (Mm.kmalloc k.heap sizeofProc).2 c.priority).pmm :=
      ⟨hk.space.reserved, hk.space.empty, hk.space.directory⟩
    obtain rfl : p = (Mm.kmalloc k.heap sizeofProc).2 := by
      obtain ⟨-, gotTables, -, hret, -⟩ := hout.frames hspace hk.linked
      cases gotTables with
      | true => exact hret
      | false => exact absurd hret hne
    exact ⟨rfl, i, hslot, hspace, hout⟩

/-- A process that is returned has its stack region, if the size fits. -/
theorem CreateReady.stackRegion (hk : CreateReady image k) (hcall : CreateStep image k (c, p) k')
    (hne : p ≠ 0) (hsize : c.stackSize ≤ procStackTop) :
    StackRegion image k k' p c.stackSize (stackBottomAl c.stackSize) 0xC0000000 := by
  obtain ⟨-, i, -, hspace, hout⟩ := hk.outcome hcall hne
  have hregion := hout.stackRegion hne hspace hk.linked hsize
  exact ⟨hregion.aligned, hregion.ends, hregion.pages, hregion.user, hregion.bytes,
    hregion.useresp, hregion.tight⟩

/-- The stack of a new process fits exactly if its size is at most `PROC_STACK_TOP`, or the
call fails for want of a slot, of a block or of a table. -/
theorem stack_fits_iff (hk : CreateReady image k) : StackFits image k c ↔
    c.stackSize ≤ procStackTop ∨ findEmptySlot k 1 (maxProc - 1) = none ∨
      (Mm.kmalloc k.heap sizeofProc).2 = 0 ∨
      ∃ framemap gotDir, spaceFrames k.pmm.framemap c.stackSize = some (framemap, gotDir, false) := by
  rw [← hk.returns_null_iff]
  constructor
  · rintro ⟨-, hnull⟩
    by_cases hsize : c.stackSize ≤ procStackTop
    · exact Or.inl hsize
    · exact Or.inr (hnull (by omega))
  · rintro (hsize | ⟨k₀, hnull⟩)
    · refine ⟨fun k' p hcall hne => ?_, fun hlarge => by omega⟩
      exact ⟨_, _, hk.stackRegion hcall hne hsize⟩
    · refine ⟨fun k' p hcall hne => ?_, fun _ => ⟨k₀, hnull⟩⟩
      unfold CreateStep at hcall hnull
      rw [hnull] at hcall
      exact absurd (congrArg Prod.snd (Option.some.inj hcall)).symm hne

theorem stack_fits_one_page : ∃ k k₁, Boot sampleImage pagedKernel k ∧
    Run (CreateStep sampleImage) k [(sampleCall, 0xC04000A0)] k₁ ∧
    (StackFits sampleImage k₁ sampleCall ↔ sampleCall.stackSize ≤ procStackTop ∨
      findEmptySlot k₁ 1 (maxProc - 1) = none ∨ (Mm.kmalloc k₁.heap sizeofProc).2 = 0 ∨
      ∃ framemap gotDir, spaceFrames k₁.pmm.framemap sampleCall.stackSize =
        some (framemap, gotDir, false)) := by
  obtain ⟨k, k₁, hboot, hcalls⟩ := pagedKernel_creates
  exact ⟨k, k₁, hboot, hcalls, stack_fits_iff
    (.of_run hboot pagedKernel_paged sampleImage_linked hcalls)⟩

/-- A stack of 4 GiB less one byte: its bottom comes out 1 byte above `PROC_STACK_TOP`. -/
def largeCall : CreateCall := { sampleCall with stackSize := 0xFFFFFFFF }

theorem stack_fits_fails : ∃ k, Boot sampleImage pagedKernel k ∧ CreateReady sampleImage k ∧
    ¬ StackFits sampleImage k largeCall := by
  obtain ⟨k, h⟩ := pagedKernel_boots
  -- one page is all that such a stack enters
  obtain ⟨-, framemap, -, hframes, -⟩ := spaceFrames_usedTo bootFrames_usedTo (by decide) (by decide)
    (by decide) (by decide) (show stackPages 0xFFFFFFFF = 1 from rfl) (by decide) (by decide)
  rw [← h.framemap] at hframes
  have hready := CreateReady.of_run h.boot pagedKernel_paged sampleImage_linked (.nil k)
  refine ⟨k, h.boot, hready, fun hfits => ?_⟩
  have hnull := hfits.2 (by decide)
  rw [hready.returns_null_iff, h.slot, h.block] at hnull
  obtain ⟨framemap', gotDir', hfailed⟩ := (hnull.resolve_left (by simp)).resolve_left (by decide)
  have hlarge : largeCall.stackSize = 0xFFFFFFFF := rfl
  rw [hlarge, hframes] at hfailed
  simp at hfailed

end Region

end BrownieOS.Process
