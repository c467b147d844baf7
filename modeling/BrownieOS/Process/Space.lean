import BrownieOS.Process.CreateCases
import BrownieOS.Process.MapPages

/-!
# The address space of a new process

Over a kernel directory with an empty user half, the clone gives the new directory the
kernel half and nothing else, and mapping the stack writes only the directory and its
tables. Where no two frames were left for the directory, `KP2V` has turned the failure
into the address of frame 0, and the directory is there.
-/
namespace BrownieOS.Process

open BrownieOS.Lib BrownieOS.Lib.Word32 BrownieOS.Mm

/-- The kernel directory after `paging_init`, and the first 4 MiB reserved. -/
structure KernelSpace (image : KernelImage) (s : Pmm) : Prop where
  reserved : ∀ f < 1024, s.framemap.test f = true
  empty : EmptyUserHalf s.mem image.dirFrame
  directory : KernelDirectory s.mem image

/-- Memory after `paging_init`, the user half of the kernel directory zero as in the image. -/
structure Paged (image : KernelImage) (s : Pmm) : Prop where
  memory : ∃ m₀ : Mem, (∀ i < 768, m₀.get32 (image.dirPaddr + 4 * i) = 0) ∧
    s.mem = setupKernelDirectory image m₀
  reserved : ∀ f < 1024, s.framemap.test f = true

/-- No frame below 896 MiB is free. -/
def LowExhausted (framemap : FrameMap) : Prop := ∀ f < lowFrames, framemap.test f = true

/-- The directory frames of a space that is being built. -/
structure NewDirectory (image : KernelImage) (D : Nat) (s s' : Pmm) : Prop where
  low : D + 1 < lowFrames
  fresh : D = 0 ∨ s.framemap.test D = false ∧ s.framemap.test (D + 1) = false
  used : s'.framemap.test D = true
  used' : s'.framemap.test (D + 1) = true
  grows : ∀ f, s.framemap.test f = true → s'.framemap.test f = true
  entries : ∀ i < 1024, s'.mem.word D i = if 768 ≤ i then s.mem.word image.dirFrame i else 0
  pointers : ∀ i < 1024,
    s'.mem.word (D + 1) i = if 768 ≤ i then s.mem.word (image.dirFrame + 1) i else 0
  others : ∀ f, f ≠ D → f ≠ D + 1 → s.mem.SameFrame s'.mem f

section Space

variable {image : KernelImage} {s s' : Pmm} {D cr3 stackSize dirPhys stackPhys : Nat} {ok : Bool}

theorem Paged.userWords (h : Paged image s) : ∀ i < 768, s.mem.word image.dirFrame i = 0 := by
  obtain ⟨m₀, hzero, hmem⟩ := h.memory
  intro i hi
  have hword : s.mem.word image.dirFrame i = s.mem.get32 (image.dirPaddr + 4 * i) := by
    rw [Mem.word, ← image.kv2p_dir]
    rfl
  rw [hword, hmem, (setupKernelDirectory_kept image m₀).1 i hi, hzero i hi]

theorem Paged.kernelSpace (h : Paged image s) : KernelSpace image s := by
  obtain ⟨m₀, -, hmem⟩ := h.memory
  refine ⟨h.reserved, fun i hi => ?_, ?_⟩
  · rw [h.userWords i hi]
    rfl
  · rw [hmem]
    exact (setupKernelDirectory_spec image m₀).1

theorem KernelSpace.mirrored (hk : KernelSpace image s) :
    Mirrored s.mem image.dirFrame (fun i => 768 ≤ i)
      (fun T => ∃ i, 768 ≤ i ∧ i < 1024 ∧ T = image.tableFrame i) := by
  intro i hi hkern _
  have hf := hk.directory.frame i hkern hi
  have hp := hk.directory.pointers i hkern hi
  rw [getTable_eq image.kv2p_dir] at hp
  rw [getDirEntry_eq image.kv2p_dir] at hf
  obtain ⟨-, hlow, -, -⟩ := image.frames_low hkern hi
  refine ⟨image.tableFrame i, ?_, ⟨i, hkern, hi, rfl⟩, ?_, ?_⟩
  · simp only [lowFrames]
    omega
  · rw [hp]
    exact image.table_eq_kp2v hkern hi
  · have ht := image.kv2p_table i hkern hi
    simp only [framePaddr, KernelImage.tablePaddr] at hf
    omega

/-- A directory that is apart from the kernel's frames: a new one, or the one at frame 0. -/
theorem KernelSpace.apart (hk : KernelSpace image s) (hl : image.Linked)
    (h : D = 0 ∨ s.framemap.test D = false ∧ s.framemap.test (D + 1) = false) :
    DirectoriesApart image.dirFrame D ∧ ∀ i, 768 ≤ i → i < 1024 →
      image.tableFrame i ≠ D ∧ image.tableFrame i ≠ D + 1 := by
  have hlow : ∀ i, 768 ≤ i → i < 1024 → 256 ≤ image.dirFrame ∧ 256 ≤ image.tableFrame i ∧
      image.dirFrame + 1 < 1024 ∧ image.tableFrame i < 1024 := by
    intro i h₀ h₁
    obtain ⟨h₂, h₃⟩ := hl.frames h₀ h₁
    obtain ⟨h₄, h₅, -, -⟩ := image.frames_low h₀ h₁
    exact ⟨h₂, h₃, h₄, h₅⟩
  have hD : D = 0 ∨ 1024 ≤ D := by
    rcases h with h | ⟨h, -⟩
    · exact Or.inl h
    · right
      by_contra hlt
      rw [hk.reserved D (by omega)] at h
      cases h
  obtain ⟨h₁, -, h₃, -⟩ := hlow 768 (by decide) (by decide)
  refine ⟨⟨by omega, by omega, by omega⟩, fun i h₀ hi => ?_⟩
  obtain ⟨-, h₂, -, h₄⟩ := hlow i h₀ hi
  omega

/-- Whatever the request for its frames returned, the directory gets the kernel half. -/
theorem newDirectory_of_clone {s₁ : Pmm} (hk : KernelSpace image s) (hl : image.Linked)
    (hdir : s.allocPages pmmFlagsDefault 2 = some (s₁, dirPhys)) :
    ∃ D m', dirPhys = 4096 * D ∧ kv2p (kp2v dirPhys) = 4096 * D ∧
      clonePageDir image.dir cr3 image.dir (kp2v dirPhys)
        { s₁ with mem := s₁.mem.fill (kv2p (kp2v dirPhys)) 8192 0 } = some { s₁ with mem := m' } ∧
      NewDirectory image D s { s₁ with mem := m' } := by
  have h0 := hk.reserved 0 (by decide)
  obtain ⟨hmem, hcases⟩ := Pmm.allocPages_low h0 (by decide) hdir
  have hg₁ := Pmm.allocPages_grows h0 hdir
  have hD : ∃ D, dirPhys = 4096 * D ∧ D + 1 < lowFrames ∧
      (D = 0 ∨ s.framemap.test D = false ∧ s.framemap.test (D + 1) = false) ∧
      s₁.framemap.test D = true ∧ s₁.framemap.test (D + 1) = true := by
    rcases hcases with ⟨rfl, -, -⟩ | ⟨D, rfl, -, hlow, hnew, -⟩
    · exact ⟨0, rfl, by decide, Or.inl rfl, hg₁.used 0 h0, hg₁.used 1 (hk.reserved 1 (by decide))⟩
    · obtain ⟨hfree, hmarked⟩ := hnew.range
      refine ⟨D, rfl, hlow, Or.inr ⟨hfree D (by omega) (by omega), hfree (D + 1) (by omega) (by omega)⟩,
        ?_, ?_⟩
      · rw [hmarked, decide_eq_true (by omega)]
        rfl
      · rw [hmarked, decide_eq_true (by omega)]
        rfl
  obtain ⟨D, rfl, hlow, hfresh, hused, hused'⟩ := hD
  have hptr := kv2p_kp2v_frame (show D < lowFrames by omega)
  obtain ⟨⟨hK, hK', hK''⟩, -⟩ := hk.apart hl hfresh
  have hzero : ∀ f, f ≠ D → f ≠ D + 1 → s₁.mem.SameFrame (s₁.mem.zeroFrames D 2) f :=
    fun f hf hf' => Mem.sameFrame_zeroFrames _ (by omega)
  have hempty : EmptyUserHalf (s₁.mem.zeroFrames D 2) image.dirFrame := by
    intro i hi
    rw [(hzero _ hK hK').word (by omega), hmem]
    exact hk.empty i hi
  have hfill : s₁.mem.fill (kv2p (kp2v (4096 * D))) 8192 0 = s₁.mem.zeroFrames D 2 := by
    rw [hptr, Mem.zeroFrames]
  obtain ⟨m', hm', hcopy⟩ := clonePageDir_kernel
    (s := { s₁ with mem := s₁.mem.zeroFrames D 2 }) image.kv2p_dir hptr ⟨hK, hK', hK''⟩ hempty
  refine ⟨D, m', rfl, hptr, by rw [hfill]; exact hm', hlow, hfresh, hused, hused', hg₁.used,
    fun i hi => ?_, fun i hi => ?_, fun f hf hf' => ?_⟩
  · rw [hcopy.entries i hi]
    split
    · rw [if_pos (by omega), (hzero _ hK hK').word hi, hmem]
    · rw [if_neg (by omega)]
      exact Mem.word_zeroFrames _ hi (Nat.le_refl D) (by omega)
  · rw [hcopy.pointers i hi]
    split
    · rw [if_pos (by omega), (hzero _ hK'' (by omega)).word hi, hmem]
    · rw [if_neg (by omega)]
      exact Mem.word_zeroFrames _ hi (by omega) (by omega)
  · rw [← hmem]
    exact (hzero f hf hf').trans (hcopy.others f hf hf')

/-- Taking more frames does not touch it. -/
theorem NewDirectory.alloc {s'' : Pmm} {flags : PmmFlags} {count base : Nat}
    (hn : NewDirectory image D s s') (h0 : s.framemap.test 0 = true)
    (h : s'.allocPages flags count = some (s'', base)) : NewDirectory image D s s'' := by
  have hg := Pmm.allocPages_grows (hn.grows 0 h0) h
  obtain ⟨-, heq⟩ := Pmm.allocPages_eq_some h
  have hmem : s''.mem = s'.mem := by rw [heq]
  refine ⟨hn.low, hn.fresh, hg.used D hn.used, hg.used (D + 1) hn.used',
    fun f hf => hg.used f (hn.grows f hf), ?_, ?_, ?_⟩
  · rw [hmem]
    exact hn.entries
  · rw [hmem]
    exact hn.pointers
  · rw [hmem]
    exact hn.others

/-- The directory is ready before the frames of the stack are. -/
theorem newDirectory_of_built (hk : KernelSpace image s) (hl : image.Linked)
    (h : SpaceBuilt image cr3 stackSize s dirPhys stackPhys s') :
    ∃ D, dirPhys = 4096 * D ∧ kv2p (kp2v dirPhys) = 4096 * D ∧ NewDirectory image D s s' := by
  obtain ⟨s₁, s₂, hdir, hclone, hstack⟩ := h
  obtain ⟨D, m', hbase, hptr, hm', hn⟩ := newDirectory_of_clone hk hl hdir
  rw [hm'] at hclone
  obtain rfl := Option.some.inj hclone
  exact ⟨D, hbase, hptr, hn.alloc (hk.reserved 0 (by decide)) hstack⟩

/-- The frames a new directory's tables may be: what is free, and the kernel's own tables. -/
def TableFrames (image : KernelImage) (framemap : FrameMap) (T : Nat) : Prop :=
  framemap.test T = false ∨ ∃ i, 768 ≤ i ∧ i < 1024 ∧ T = image.tableFrame i

theorem NewDirectory.own (hk : KernelSpace image s) (hl : image.Linked)
    (hn : NewDirectory image D s s') :
    OwnDirectory s' D (fun _ => True) (TableFrames image s'.framemap) := by
  obtain ⟨-, hapart⟩ := hk.apart hl hn.fresh
  constructor
  · exact hn.grows 0 (hk.reserved 0 (by decide))
  · exact hn.used
  · exact hn.used'
  · rintro (hfree | ⟨i, h₀, h₁, he⟩)
    · rw [hn.used] at hfree
      cases hfree
    · exact (hapart i h₀ h₁).1 he.symm
  · rintro (hfree | ⟨i, h₀, h₁, he⟩)
    · rw [hn.used'] at hfree
      cases hfree
    · exact (hapart i h₀ h₁).2 he.symm
  · exact fun f _ hfree => Or.inl hfree
  · intro i hi _ hp
    rw [hn.entries i hi] at hp ⊢
    rw [hn.pointers i hi]
    by_cases hkern : 768 ≤ i
    · rw [if_pos hkern] at hp ⊢
      rw [if_pos hkern]
      obtain ⟨T, hT, ⟨j, h₀, h₁, he⟩, hptr, hframe⟩ := hk.mirrored i hi hkern hp
      have hlow := (image.frames_low h₀ h₁).2.1
      exact ⟨T, hT, ⟨Or.inr ⟨j, h₀, h₁, he⟩, hn.grows T (hk.reserved T (by omega))⟩, hptr, hframe⟩
    · rw [if_neg hkern] at hp
      cases hp

theorem KernelSpace.of_sameFrame (hk : KernelSpace image s)
    (hused : ∀ f, s.framemap.test f = true → s'.framemap.test f = true)
    (hK : s.mem.SameFrame s'.mem image.dirFrame) (hK' : s.mem.SameFrame s'.mem (image.dirFrame + 1)) :
    KernelSpace image s' := by
  refine ⟨fun f hf => hused f (hk.reserved f hf), fun i hi => ?_, hk.directory.of_sameFrame hK hK'⟩
  rw [hK.word (by omega)]
  exact hk.empty i hi

/-- The kernel directory is none of the frames a new space writes. -/
theorem KernelSpace.not_tableFrame (hk : KernelSpace image s) {framemap : FrameMap}
    (hused : ∀ f, s.framemap.test f = true → framemap.test f = true) :
    ¬ TableFrames image framemap image.dirFrame ∧
      ¬ TableFrames image framemap (image.dirFrame + 1) := by
  obtain ⟨hlow, -, -, -⟩ := image.frames_low (i := 768) (by decide) (by decide)
  constructor
  · rintro (hfree | ⟨i, h₀, h₁, he⟩)
    · rw [hused _ (hk.reserved _ (by omega))] at hfree
      cases hfree
    · exact (image.frames_low h₀ h₁).2.2.1 he.symm
  · rintro (hfree | ⟨i, h₀, h₁, he⟩)
    · rw [hused _ (hk.reserved _ hlow)] at hfree
      cases hfree
    · exact (image.frames_low h₀ h₁).2.2.2 he.symm

/-! ## The stack -/

/-- The last page of every stack is the one below 3 GiB. -/
theorem stack_last (stackSize : Nat) (h : stackPages stackSize ≠ 0) :
    pageVirt (stackBottomAl stackSize) (stackPages stackSize - 1) = 0xBFFFF000 := by
  have htop : stackTopAl = 0xC0000000 := by decide
  have hb : stackBottomAl stackSize < 4294967296 ∧ stackBottomAl stackSize % 4096 = 0 := by
    have := wsub_lt procStackTop stackSize
    unfold stackBottomAl
    omega
  unfold stackPages at h ⊢
  rw [htop] at h ⊢
  simp only [pageVirt, wadd, wmul, wsub, pageSize] at h ⊢
  omega

theorem stack_last_idx (stackSize : Nat) (h : stackPages stackSize ≠ 0) :
    pageDirIdx (pageVirt (stackBottomAl stackSize) (stackPages stackSize - 1)) = 767 := by
  rw [stack_last stackSize h]
  decide

/-- With no low frame left there is no table for the user half. -/
theorem mapStack_exhausted {dir : Nat} {P : Nat → Prop} (hdir : kv2p dir = 4096 * D)
    (ho : OwnDirectory s D (fun _ => True) P) (hlow : LowExhausted s.framemap)
    (habsent : ∀ i < 768, (PageDirEntry.decode (s.mem.word D i)).present = false)
    (h : mapStack dir stackSize stackPhys s = some (s', ok)) : ok = false := by
  unfold mapStack at h
  split at h
  · cases h
    rfl
  · rename_i hpages
    by_contra hok
    have hrule := procMapLoop_rule h (Q := fun k t => OwnDirectory t D (fun _ => True) P ∧
      LowExhausted t.framemap ∧
      (∀ i < 768, (PageDirEntry.decode (t.mem.word D i)).present = false) ∧
      ∀ l < k, 768 ≤ pageDirIdx (pageVirt (stackBottomAl stackSize) l)) ?_
      ⟨ho, hlow, habsent, fun l hl => absurd hl (Nat.not_lt_zero l)⟩
    · rcases hrule with ⟨-, -, -, -, hkern⟩ | ⟨hfalse, -⟩
      · have := hkern (stackPages stackSize - 1) (by omega)
        rw [stack_last_idx stackSize hpages] at this
        omega
      · exact hok hfalse
    · rintro k t t' - - ⟨hot, hlowt, habsentt, hkern⟩ hpage
      have ht := procMapPage_turn hdir hot (pageVirt_lt _ k) trivial hpage
      have hidx : 768 ≤ pageDirIdx (pageVirt (stackBottomAl stackSize) k) := by
        by_contra hlt
        cases ht with
        | newTable _ hT hnew _ _ _ _ =>
          have hfree := hnew.range.1 _ (Nat.le_refl _) (Nat.lt_succ_self _)
          rw [hlowt _ hT] at hfree
          cases hfree
        | hasTable hpresent _ _ _ _ _ _ _ _ =>
          rw [habsentt _ (by omega)] at hpresent
          cases hpresent
      refine ⟨hot.turn ht, fun f hf => ht.framemap (hlowt f hf), fun i hi => ?_, fun l hl => ?_⟩
      · rw [(ht.entries (by omega) (by omega)).1]
        exact habsentt i hi
      · by_cases hlk : l = k
        · rw [hlk]
          exact hidx
        · exact hkern l (by omega)

/-- Mapping the stack of a new space leaves every frame but the space's own alone, and fails
only for want of a low frame. -/
theorem mapStack_own {dir : Nat} {P : Nat → Prop} (hdir : kv2p dir = 4096 * D)
    (ho : OwnDirectory s D (fun _ => True) P) (hpages : stackPages stackSize ≠ 0)
    (h : mapStack dir stackSize stackPhys s = some (s', ok)) :
    OwnDirectory s' D (fun _ => True) P ∧ WritesOnly D (fun _ => True) P s s' ∧
      (ok = false → LowExhausted s'.framemap) := by
  unfold mapStack at h
  rw [if_neg hpages] at h
  exact procMapLoop_own hdir ho (fun _ _ _ => trivial) h

theorem SpaceBuilt.stack (h0 : s.framemap.test 0 = true)
    (h : SpaceBuilt image cr3 stackSize s dirPhys stackPhys s') :
    stackPhys ≠ 0 ∧ stackPages stackSize ≠ 0 := by
  obtain ⟨s₁, s₂, hdir, hclone, hstack⟩ := h
  have hg₁ := Pmm.allocPages_grows h0 hdir
  have hg₂ := clonePageDir_grows
    (s := { s₁ with mem := s₁.mem.fill (kv2p (kp2v dirPhys)) 8192 0 }) (hg₁.used 0 h0) hclone
  obtain ⟨hne, hpos, -, -⟩ :=
    Pmm.allocPages_highmem (hg₂.used 0 (hg₁.used 0 h0)) hstack
  exact ⟨hne, Nat.pos_iff_ne_zero.1 hpos⟩

/-- What follows the PID keeps the kernel's directory. It fails only when no low frame is
left, and then it cannot but fail. -/
theorem DirectoryOutcome.space {k k' : Kernel} {proc procIdx entry r : Nat}
    (h : DirectoryOutcome image k proc procIdx entry stackSize k' r)
    (hk : KernelSpace image k.pmm) (hl : image.Linked) :
    KernelSpace image k'.pmm ∧ (r = 0 ∧ LowExhausted k'.pmm.framemap ∨
      r = proc ∧ ¬ LowExhausted k.pmm.framemap) := by
  have h0 := hk.reserved 0 (by decide)
  have hmapped : ∀ {dirPhys stackPhys s s' ok},
      SpaceBuilt image k.cr3 stackSize k.pmm dirPhys stackPhys s →
      mapStack (kp2v dirPhys) stackSize stackPhys s = some (s', ok) →
      KernelSpace image s' ∧ (ok = false → LowExhausted s'.framemap) ∧
        (ok = true → ¬ LowExhausted k.pmm.framemap) := by
    intro dirPhys stackPhys s s' ok hbuilt hmap
    obtain ⟨D, -, hptr, hn⟩ := newDirectory_of_built hk hl hbuilt
    have hown := hn.own hk hl
    obtain ⟨⟨hK, hK', hK''⟩, -⟩ := hk.apart hl hn.fresh
    obtain ⟨hnot, hnot'⟩ := hk.not_tableFrame hn.grows
    obtain ⟨-, hw, hfail⟩ := mapStack_own hptr hown (hbuilt.stack h0).2 hmap
    refine ⟨hk.of_sameFrame (fun f hf => hw.used f (hn.grows f hf))
      ((hn.others _ hK hK').trans (hw.others _ hK hK' hnot))
      ((hn.others _ hK'' (by omega)).trans (hw.others _ hK'' (by omega) hnot')), hfail, ?_⟩
    intro hok hlow
    have hfalse := mapStack_exhausted hptr hown (fun f hf => hn.grows f (hlow f hf)) (fun i hi => by
      rw [hn.entries i (by omega), if_neg (by omega)]
      rfl) hmap
    rw [hok] at hfalse
    cases hfalse
  cases h with
  | noStack hbuilt => exact absurd rfl (hbuilt.stack h0).1
  | noTable hbuilt hz hmap =>
    obtain ⟨hspace, hfail, -⟩ := hmapped hbuilt hmap
    exact ⟨hspace, Or.inl ⟨rfl, hfail rfl⟩⟩
  | done hbuilt hz hmap =>
    obtain ⟨hspace, -, hdone⟩ := hmapped hbuilt hmap
    rw [createProcFinish_eq]
    exact ⟨⟨hspace.reserved, hspace.empty, hspace.directory⟩, Or.inr ⟨rfl, hdone rfl⟩⟩

end Space

end BrownieOS.Process
