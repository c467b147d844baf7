import BrownieOS.Process.PageOwners
import BrownieOS.Process.UserProgram

/-!
# The address spaces of the user processes

As long as no allocation has failed, every process has a directory of its own with tables of
its own, and its pages lie in frames of its own. This is kept when processes are made, when
frames are taken and mapped, when another directory is loaded, and by every store that goes
to no directory and no table.
-/
namespace BrownieOS.Process

open BrownieOS.Lib BrownieOS.Lib.Word32 BrownieOS.Mm

/-- The frame `C` is that of the kernel's directory or of a process's. -/
def DirectoryOf (image : KernelImage) (k : Kernel) (C : Nat) : Prop := C = image.dirFrame ∨ SpaceOf k C

/-- The frames that translations are read from: the directories and the tables below 3 GiB. -/
def SpaceFrame (image : KernelImage) (k : Kernel) (f : Nat) : Prop :=
  (∃ D, DirectoryOf image k D ∧ (f = D ∨ f = D + 1)) ∨ ∃ D, SpaceOf k D ∧ UserTable k.pmm.mem D f

/-- The address spaces, the frames `first` in use before the first process and the frames
`Held` handed out but mapped nowhere below 3 GiB yet. The directories of `Opened` may let user mode
in above it; none of them is loaded. -/
structure UserSpaces (image : KernelImage) (first : FrameMap) (Opened : Nat → Prop) (k : Kernel)
    (Held : Nat → Prop) : Prop where
  spaces : SpacesOwn image Opened k
  pages : PagesOwn image first k.pmm (SpaceOf k) Held
  low : ∀ f < 1024, first.test f = true
  distinct : ∀ p q, UserProcess k p → UserProcess k q →
    (k.procs p).pageDirectory = (k.procs q).pageDirectory → p = q
  shares : ∀ D, SpaceOf k D → ¬ Opened D → ∀ i, 768 ≤ i → i < 1024 →
    k.pmm.mem.word D i = k.pmm.mem.word image.dirFrame i
  kernel : (k.procs (k.procList 0)).pageDirectory = image.dir
  loaded : ∃ C, DirectoryOf image k C ∧ ¬ Opened C ∧ k.cr3 = 4096 * C

section UserSpaces

variable {image : KernelImage} {first : FrameMap} {k k' : Kernel} {s s' : Pmm}
  {Held Held' Ds Opened : Nat → Prop} {C D f p virt phys pages base count : Nat} {flags : PmmFlags} {w ok : Bool}

theorem UserFrame.high (h : UserFrame first s Ds f) (hlow : ∀ f < 1024, first.test f = true) :
    1024 ≤ f := by
  by_contra hlt
  have hfirst := hlow f (by omega)
  rw [h.fresh] at hfirst
  cases hfirst

/-- A frame for pages is no frame of a directory or a table. -/
theorem UserFrame.not_spaceFrame (h : UserFrame first k.pmm (SpaceOf k) f)
    (hlow : ∀ f < 1024, first.test f = true) : ¬ SpaceFrame image k f := by
  obtain ⟨hdir, -, -, -⟩ := image.frames_low (i := 768) (by decide) (by decide)
  have hhigh := h.high hlow
  rintro (⟨D, rfl | hD, he⟩ | ⟨D, hD, hT⟩)
  · omega
  · have := h.directory D hD
    omega
  · exact h.table D hD hT

theorem UserFrame.plain (h : UserFrame first k.pmm (SpaceOf k) f)
    (hlow : ∀ f < 1024, first.test f = true) (hC : DirectoryOf image k C) : PlainFrame C f := by
  obtain ⟨hdir, -, -, -⟩ := image.frames_low (i := 768) (by decide) (by decide)
  have hhigh := h.high hlow
  refine ⟨h.inside, hhigh, ?_⟩
  rcases hC with rfl | hC
  · omega
  · exact (h.directory C hC).1

/-- The kernel's tables are no frame of a directory, nor one of a process's tables. -/
theorem UserSpaces.kernelTable (hi : UserSpaces image first Opened k Held) (hf : KernelTable image f) :
    ¬ SpaceFrame image k f := by
  have hlow := hf.low
  obtain ⟨i, h₀, h₁, rfl⟩ := hf
  obtain ⟨-, -, hne, hne'⟩ := image.frames_low h₀ h₁
  obtain ⟨-, hlinked⟩ := hi.spaces.linked.frames h₀ h₁
  rintro (⟨D, rfl | hD, he⟩ | ⟨D, hD, hT⟩)
  · omega
  · have := hi.spaces.own.place D hD
    omega
  · have := (hi.spaces.own.tables D hD _ hT).1
    omega

theorem UserSpaces.held_frame (hi : UserSpaces image first Opened k Held) (hf : Held f) :
    ¬ SpaceFrame image k f :=
  (hi.pages.held f hf).not_spaceFrame hi.low

/-- Whatever is stored elsewhere, and whatever frames are taken, the spaces stay. -/
theorem UserSpaces.kept (hi : UserSpaces image first Opened k Held)
    (hused : ∀ f, k.pmm.framemap.test f = true → s'.framemap.test f = true)
    (hsame : ∀ f, SpaceFrame image k f → k.pmm.mem.SameFrame s'.mem f) :
    UserSpaces image first Opened { k with pmm := s' } Held := by
  have hdir : ∀ D, DirectoryOf image k D →
      k.pmm.mem.SameFrame s'.mem D ∧ k.pmm.mem.SameFrame s'.mem (D + 1) := fun D hD =>
    ⟨hsame D (Or.inl ⟨D, hD, Or.inl rfl⟩), hsame _ (Or.inl ⟨D, hD, Or.inr rfl⟩)⟩
  have hkernel := hdir image.dirFrame (Or.inl rfl)
  constructor
  · exact hi.spaces.withPmm hused (hi.spaces.own.of_sameFrame hused hkernel.1 hkernel.2
      fun D hD => hdir D (Or.inr hD))
  · exact hi.pages.of_sameFrame hused hkernel.1 (fun D hD => (hdir D (Or.inr hD)).1)
      fun D hD T hT => hsame T (Or.inr ⟨D, hD, hT⟩)
  · exact hi.low
  · exact hi.distinct
  · intro D hD hclosed i h₀ h₁
    show s'.mem.word D i = s'.mem.word image.dirFrame i
    rw [(hdir D (Or.inr hD)).1.word h₁, hkernel.1.word h₁]
    exact hi.shares D hD hclosed i h₀ h₁
  · exact hi.kernel
  · exact hi.loaded

theorem UserSpaces.mono (hi : UserSpaces image first Opened k Held) (h : ∀ f, Held' f → Held f) :
    UserSpaces image first Opened k Held' :=
  ⟨hi.spaces, hi.pages.mono (fun _ hD => hD) h, hi.low, hi.distinct, hi.shares, hi.kernel,
    hi.loaded⟩

/-- Frames handed out are held. -/
theorem UserSpaces.alloc (hi : UserSpaces image first Opened k Held)
    (h : k.pmm.allocPages flags count = some (s', base)) (hne : base ≠ 0) :
    UserSpaces image first Opened { k with pmm := s' } fun f => Held f ∨ (framesOf base count).Mem f := by
  have h0 := hi.spaces.own.kernel.reserved 0 (by decide)
  have hg := Pmm.allocPages_grows h0 h
  obtain ⟨-, heq⟩ := Pmm.allocPages_eq_some h
  have hmem : s'.mem = k.pmm.mem := by rw [heq]
  rcases Pmm.allocPages_cases h0 h with ⟨hz, -⟩ | ⟨-, hnew, -⟩
  · exact absurd hz hne
  · have hkept : UserSpaces image first Opened { k with pmm := s' } Held := hi.kept hg.used fun f _ => by
      rw [hmem]
      exact .refl _ f
    exact ⟨hkept.spaces, hi.pages.alloc hi.spaces.own hnew hmem, hkept.low, hkept.distinct, hkept.shares,
      hkept.kernel, hkept.loaded⟩

/-- Any directory that is not opened may be loaded. -/
theorem UserSpaces.load (hi : UserSpaces image first Opened k Held) (hC : DirectoryOf image k C)
    (hclosed : ¬ Opened C) : UserSpaces image first Opened { k with cr3 := 4096 * C } Held := by
  obtain ⟨kp, kernelProc, calls, ht⟩ := hi.spaces.table
  refine ⟨⟨hi.spaces.linked, ⟨kp, kernelProc, calls, ?_⟩, hi.spaces.placed, hi.spaces.own⟩, hi.pages,
    hi.low, hi.distinct, hi.shares, hi.kernel, ⟨C, hC, hclosed, rfl⟩⟩
  exact ⟨ht.frame0, ht.heap, ht.kernelSlot, ht.kernelNonNull, ht.kernelProc, ht.current, ht.entries,
    ht.distinct, ht.created⟩

/-- Through the directory that is loaded the kernel reaches its own half. -/
theorem UserSpaces.active (hi : UserSpaces image first Opened k Held) (hC : DirectoryOf image k C)
    (hclosed : ¬ Opened C) : ActiveDirectory image C k.pmm := by
  have hk := hi.spaces.own.kernel
  have hdir : SpaceFrame image k C := Or.inl ⟨C, hC, Or.inl rfl⟩
  refine ⟨hk.reserved, hk.directory, ?_, fun hT => hi.kernelTable hT hdir, fun i h₀ h₁ => ?_⟩
  · rcases hC with rfl | hC
    · obtain ⟨hlow, -, -, -⟩ := image.frames_low (i := 768) (by decide) (by decide)
      exact hk.reserved _ (by omega)
    · exact (hi.spaces.own.directory C hC).used
  · rcases hC with rfl | hC
    · rfl
    · exact hi.shares C hC hclosed i h₀ h₁

/-- Frames that are held are mapped below 3 GiB into one process. -/
theorem UserSpaces.mapPages (hi : UserSpaces image first Opened k Held) (hp : UserProcess k p)
    (huser : UserPages virt pages) (hheld : ∀ f, (framesOf phys pages).Mem f → Held f)
    (h : procMapPages k p virt phys pages w = some (k', ok)) :
    UserSpaces image first Opened k' fun f => Held f ∧ ¬ (framesOf phys pages).Mem f := by
  obtain ⟨D, s', hD, hdir, rfl, hown, hmaps⟩ := hi.spaces.mapPages hp huser h
  have hpages : PagesOwn image first s' (SpaceOf k) fun f => Held f ∧ ¬ (framesOf phys pages).Mem f := by
    rcases procMapPages_cases h with ⟨-, hk, -⟩ | ⟨t, hloop, hk⟩
    · rw [show s' = k.pmm from congrArg Kernel.pmm hk]
      exact hi.pages.mono (fun _ h => h) fun f hf => hf.1
    · rw [hdir] at hloop
      rw [show s' = t from congrArg Kernel.pmm hk]
      exact (hi.pages.loop hi.spaces.own hi.spaces.linked hD (absurd huser) hheld hloop).mono
        (fun _ h => h) fun f hf => ⟨hf.1, fun hin => hf.2 hin.mem⟩
  obtain ⟨⟨hK, -⟩, hothers⟩ := hi.spaces.own.others hi.spaces.linked hD hmaps
  refine ⟨hi.spaces.withPmm hmaps.writes.used hown, hpages, hi.low, hi.distinct, fun D' hD' hclosed i h₀ h₁ => ?_,
    hi.kernel, hi.loaded⟩
  show s'.mem.word D' i = s'.mem.word image.dirFrame i
  rw [hK.word h₁, ← hi.shares D' hD' hclosed i h₀ h₁]
  by_cases hne : D' = D
  · rw [hne]
    exact (hmaps.writes.entries i h₁ (by omega)).1
  · exact (hothers D' hD' hne).1.word h₁

/-- When pages are not mapped, an allocation has failed. -/
theorem UserSpaces.mapPages_failed (hi : UserSpaces image first Opened k Held) (hp : UserProcess k p)
    (huser : UserPages virt pages) (hpages : pages ≠ 0)
    (h : procMapPages k p virt phys pages w = some (k', false)) : k'.pmm.failed = true := by
  obtain ⟨D, hD, hdir⟩ := hi.spaces.placed p hp
  have hlow := hD.1
  have hnull : (k.procs p).pageDirectory ≠ 0 := by
    rw [hdir]
    exact kp2v_low_ne_zero (by omega)
  obtain ⟨s', hloop, rfl⟩ := (procMapPages_cases h).resolve_left fun hdown =>
    not_or.2 ⟨hp.1, not_or.2 ⟨hnull, hpages⟩⟩ hdown.1
  rw [hdir] at hloop
  have hidx : ∀ l < pages, pageDirIdx (pageVirt virt l) < 768 :=
    fun l hl => huser.entries ⟨l, hl, rfl⟩
  have hrule := procMapLoop_rule
    (Q := fun _ t => MapsInto image D (fun _ => Opened D) (· < 768) k.pmm t) hloop
    (fun l t t' _ hl hmaps hpage => hmaps.turn (pageVirt_lt virt l) (hidx l (by omega)) hpage)
    (hi.spaces.own.mapsInto hi.spaces.linked hD)
  rcases hrule with ⟨hz, -⟩ | ⟨-, l, t, -, hl, hmaps, hlast⟩
  · cases hz
  · exact (hmaps.turn_failed (pageVirt_lt virt l) (hidx l (by omega)) hlast).2.2

/-! ## A new process -/

/-- A call of `create_proc` that has made the process `p`, to start at `entry`, with its
directory in frame `D`: the processes there were are as they were. -/
structure ProcessMade (k k' : Kernel) (entry p D : Nat) : Prop where
  fresh : ¬ UserProcess k p
  made : UserProcess k' p
  cases : ∀ q, UserProcess k' q → q = p ∨ UserProcess k q
  kept : ∀ q, UserProcess k q → UserProcess k' q ∧ k'.procs q = k.procs q
  context : ∃ old, (k'.procs p).context = initialContext old entry
  running : (k'.procs p).procstate = .running
  directory : (k'.procs p).pageDirectory = kp2v (4096 * D)
  cr3 : k'.cr3 = k.cr3
  used : ∀ f, k.pmm.framemap.test f = true → k'.pmm.framemap.test f = true

/-- The pages of the new process's stack. -/
abbrev StackBelow (stackSize : Nat) : Prop := UserPages (stackBottomAl stackSize) (stackPages stackSize)

/-- The frames of the stack that lie above 3 GiB. -/
abbrev StackAbove (stackSize stackPhys f : Nat) : Prop :=
  HighMapped (stackBottomAl stackSize) stackPhys (stackPages stackSize) f

/-- Besides the directories `Ds`, there is one in frame `D`, with the stack in the frames from
`stackPhys` on. What was in use is as it was, but the kernel's tables if the stack reaches above
3 GiB: there they let user mode into the frames of the stack. -/
structure SpaceMade (image : KernelImage) (first : FrameMap) (Ds Opened Held : Nat → Prop)
    (stackSize D stackPhys : Nat) (s s' : Pmm) : Prop where
  place : D + 1 < lowFrames
  free : s.framemap.test D = false
  stack : ∀ f, (framesOf stackPhys (stackPages stackSize)).Mem f →
    f < nFrames ∧ s.framemap.test f = false ∧ s'.framemap.test f = true
  own : OwnTables image s' (fun D' => D' = D ∨ Ds D') fun D' => Opened D' ∨ D' = D ∧ ¬ StackBelow stackSize
  pages : PagesOwn image first s' (fun D' => D' = D ∨ Ds D') fun f => Held f ∨ StackAbove stackSize stackPhys f
  entries : StackBelow stackSize → ∀ i, 768 ≤ i → i < 1024 → s'.mem.word D i = s.mem.word image.dirFrame i
  mem : ∀ f, s.framemap.test f = true → (KernelTable image f → StackBelow stackSize) →
    s.mem.SameFrame s'.mem f
  shown : ∀ {Shown : Nat → Prop}, KernelPages image Shown s.mem →
    KernelPages image (fun f => Shown f ∨ StackAbove stackSize stackPhys f) s'.mem

/-- The pages and the frames of a new process's space, its stack in it. -/
theorem PagesOwn.newSpace {cr3 stackSize dirPhys stackPhys : Nat} (hp : PagesOwn image first s Ds Held)
    (ho : OwnTables image s Ds Opened) (hl : image.Linked) {s₁ : Pmm}
    (hbuilt : SpaceBuilt image cr3 stackSize s dirPhys stackPhys s₁) (hne : dirPhys ≠ 0)
    (hmap : mapStack (kp2v dirPhys) stackSize stackPhys s₁ = some (s', true)) :
    ∃ D, dirPhys = 4096 * D ∧ SpaceMade image first Ds Opened Held stackSize D stackPhys s s' := by
  have h0 := ho.kernel.reserved 0 (by decide)
  have hpos := (hbuilt.stack h0).2
  obtain ⟨s₂, s₃, hdir, hclone, hstack⟩ := hbuilt
  obtain ⟨D, m', rfl, -, hm', hn⟩ := newDirectory_of_clone ho.kernel hl hdir
  rw [hm'] at hclone
  obtain rfl := Option.some.inj hclone
  have hD : D ≠ 0 := by
    rintro rfl
    exact hne rfl
  obtain ⟨hfree, hfree'⟩ := hn.fresh.resolve_left hD
  obtain ⟨-, -, halloc, heq⟩ := Pmm.allocPages_highmem (hn.grows 0 h0) hstack
  have hn₁ := hn.alloc h0 hstack
  have hnew : OwnTables image s₁ (fun D' => D' = D ∨ Ds D') fun D' => Opened D' ∨ D' = D ∧ ¬ StackBelow stackSize :=
    (ho.newDirectory hl hn₁).mono (fun _ h => h) fun _ _ h => Or.inl h
  have hheld := (hp.newDirectory ho hn hD).alloc (ho.newDirectory hl hn) halloc (by rw [heq])
  unfold mapStack at hmap
  rw [if_neg hpos] at hmap
  have hopen : ¬ StackBelow stackSize → Opened D ∨ D = D ∧ ¬ StackBelow stackSize := fun h => Or.inr ⟨rfl, h⟩
  obtain ⟨hown, hmaps⟩ := hnew.mapPages hl (Or.inl rfl) hopen hmap
  have hne' : ∀ f, s.framemap.test f = true → f ≠ D ∧ f ≠ D + 1 := by
    intro f hf
    constructor
    · rintro rfl
      rw [hfree] at hf
      cases hf
    · rintro rfl
      rw [hfree'] at hf
      cases hf
  have hstackFree : ∀ f, (framesOf stackPhys (stackPages stackSize)).Mem f → s.framemap.test f = false := by
    intro f hf
    rw [← Bool.not_eq_true]
    intro hused
    have hfree := halloc.free f hf.1 hf.2
    rw [hn.grows f hused] at hfree
    cases hfree
  have hmarked : ∀ f, (framesOf stackPhys (stackPages stackSize)).Mem f → s₁.framemap.test f = true := by
    intro f hf
    rw [halloc.marked, Bitmap.test_setRange (by decide), Bool.or_eq_true, decide_eq_true_eq]
    exact Or.inl hf
  have hin : stackPhys / 4096 + stackPages stackSize ≤ nFrames := halloc.inside
  refine ⟨D, rfl, hn.low, hfree, fun f hf => ⟨Nat.lt_of_lt_of_le hf.2 hin, hstackFree f hf,
    hmaps.writes.used f (hmarked f hf)⟩, hown, ?_, fun huser i h₀ h₁ => ?_, fun f hf hkernel => ?_, fun hshown => ?_⟩
  · refine (hheld.loop hnew hl (Or.inl rfl) hopen (fun f hf => Or.inr hf) hmap).mono
      (fun _ h => h) fun f hf => ?_
    rcases hf with hf | ⟨l, hl, hhigh, rfl⟩
    · refine ⟨Or.inl hf, fun hin => ?_⟩
      have hused := (hp.held f hf).used
      rw [hstackFree f hin.mem] at hused
      cases hused
    · refine ⟨Or.inr ⟨Nat.le_add_right _ l, Nat.add_lt_add_left hl _⟩, ?_⟩
      rintro ⟨l', -, hlow, he⟩
      obtain rfl : l = l' := by omega
      omega
  · have hnot : ¬ PageEntries (stackBottomAl stackSize) (stackPages stackSize) i := by
      intro hidx
      have := huser.entries hidx
      omega
    rw [(hmaps.writes.entries i h₁ hnot).1, hn₁.entries i h₁, if_pos h₀]
  · obtain ⟨h₁, h₂⟩ := hne' f hf
    refine (hn₁.others f h₁ h₂).trans (hmaps.sameFrame (hn₁.grows f hf) h₁ h₂ hn₁.not_userTable ?_)
    intro i hi hi' hidx he
    have := (hkernel ⟨i, hi, hi', he⟩).entries hidx
    omega
  · have hbefore : KernelPages image _ s₁.mem := hshown.of_sameFrame fun f hT => by
      obtain ⟨h₁, h₂⟩ := hne' f (ho.kernel.reserved f hT.low)
      exact hn₁.others f h₁ h₂
    exact hbefore.loop hnew hl (Or.inl rfl) hopen hin hmap

/-- It is a matter of the bitmap and the memory alone. -/
theorem SpaceMade.of_eq {stackSize stackPhys : Nat} {t' : Pmm}
    (h : SpaceMade image first Ds Opened Held stackSize D stackPhys s s') (hmem : t'.mem = s'.mem)
    (hframes : t'.framemap = s'.framemap) :
    SpaceMade image first Ds Opened Held stackSize D stackPhys s t' := by
  have hbits : ∀ f, s'.framemap.test f = true → t'.framemap.test f = true := by
    intro f hf
    rw [hframes]
    exact hf
  have hrefl : ∀ f, s'.mem.SameFrame t'.mem f := by
    intro f
    rw [hmem]
    exact .refl _ f
  refine ⟨h.place, h.free, fun f hf => ?_, h.own.of_sameFrame hbits (hrefl _) (hrefl _) fun D _ =>
    ⟨hrefl D, hrefl _⟩, h.pages.of_sameFrame hbits (hrefl _) (fun D _ => hrefl D) fun _ _ T _ => hrefl T, ?_,
    fun f hf hT => (h.mem f hf hT).trans (hrefl f), fun hs => (h.shown hs).of_sameFrame fun f _ => hrefl f⟩
  · obtain ⟨hin, hfree, hused⟩ := h.stack f hf
    exact ⟨hin, hfree, hbits f hused⟩
  · rw [hmem]
    exact h.entries

/-- While no allocation fails, the directory is not that of frame 0. -/
theorem SpaceBuilt.dir_ne_zero {cr3 stackSize dirPhys stackPhys : Nat} (h0 : s.framemap.test 0 = true)
    (h : SpaceBuilt image cr3 stackSize s dirPhys stackPhys s') (hok : s'.failed = false) :
    dirPhys ≠ 0 := by
  obtain ⟨s₁, s₂, hdir, hclone, hstack⟩ := h
  have hg₁ := Pmm.allocPages_grows h0 hdir
  have hg₂ := clonePageDir_grows
    (s := { s₁ with mem := s₁.mem.fill (kv2p (kp2v dirPhys)) 8192 0 }) (hg₁.used 0 h0) hclone
  have hg₃ := Pmm.allocPages_grows (hg₂.used 0 (hg₁.used 0 h0)) hstack
  have hok₁ : s₁.failed = false := hg₂.not_failed (hg₃.not_failed hok)
  rintro rfl
  obtain ⟨-, ⟨-, -, hfailed⟩ | ⟨T, hz, hne, -⟩⟩ := Pmm.allocPages_low h0 (by decide) hdir
  · rw [hok₁] at hfailed
    cases hfailed
  · omega

/-- What follows the PID, once no allocation has failed: the space is built and the stack in it. -/
theorem DirectoryOutcome.succeeded {procIdx entry stackSize r : Nat}
    (h : DirectoryOutcome image k p procIdx entry stackSize k' r) (hk : KernelSpace image k.pmm)
    (hl : image.Linked) (hok : k'.pmm.failed = false) :
    r = p ∧ (p ≠ 0 → ∃ dirPhys stackPhys s s', SpaceBuilt image k.cr3 stackSize k.pmm dirPhys stackPhys s ∧
      dirPhys ≠ 0 ∧ mapStack (kp2v dirPhys) stackSize stackPhys s = some (s', true) ∧
      k'.pmm.mem = s'.mem ∧ k'.pmm.framemap = s'.framemap ∧
      (k'.procs p).pageDirectory = kp2v dirPhys) := by
  have h0 := hk.reserved 0 (by decide)
  obtain ⟨gotDir, gotTables, -, hr, hfailed⟩ := h.frames hk hl
  have hall := hok
  rw [hfailed, Bool.or_eq_false_iff, Bool.or_eq_false_iff, Bool.not_eq_false'] at hall
  rw [hall.1.2, if_pos rfl] at hr
  refine ⟨hr, fun hne => ?_⟩
  rw [← hr] at hne
  cases h with
  | noStack _ => exact absurd rfl hne
  | noTable _ _ _ => exact absurd rfl hne
  | done hbuilt hz hmap =>
    have hg := mapStack_grows ((hbuilt.grows h0).used 0 h0) hmap
    rw [createProcFinish_eq] at hok ⊢
    have hdone := (Bool.or_eq_false_iff.1 hok).1
    refine ⟨_, _, _, _, hbuilt, hbuilt.dir_ne_zero h0 (hg.not_failed hdone), hmap, rfl, rfl, ?_⟩
    simp [Kernel.withSpace, spaceProc, finishedProc]

theorem DirectoryOutcome.grows {proc procIdx entry stackSize r : Nat}
    (h : DirectoryOutcome image k proc procIdx entry stackSize k' r)
    (h0 : k.pmm.framemap.test 0 = true) : k.pmm.Grows k'.pmm := by
  cases h with
  | noStack hbuilt => exact hbuilt.grows h0
  | noTable hbuilt hz hmap =>
    have hg := hbuilt.grows h0
    exact hg.trans (mapStack_grows (hg.used 0 h0) hmap)
  | done hbuilt hz hmap =>
    have hg := hbuilt.grows h0
    have hg' := hg.trans (mapStack_grows (hg.used 0 h0) hmap)
    rw [createProcFinish_eq]
    refine ⟨hg'.used, fun hf => ?_⟩
    exact Bool.or_eq_true_iff.2 (Or.inl (hg'.failed hf))

/-- A call of `create_proc` gives no frame back, and takes no failure back. -/
theorem CreateStep.grows {c : CreateCall} {r : Nat} (h : CreateStep image k (c, r) k')
    (h0 : k.pmm.framemap.test 0 = true) : k.pmm.Grows k'.pmm := by
  have hcases := createProc_cases h0 h
  cases hcases with
  | noSlot _ => exact .refl _
  | @noBlock i _ _ =>
    refine ⟨fun f hf => ?_, fun hf => Bool.or_eq_true_iff.2 (Or.inl ?_)⟩
    · simpa using hf
    · simpa using hf
  | @started i proc r k₁ k' _ hblock _ hout =>
    have hg := hout.grows (by
      rw [Kernel.takePid_pmm, ← show _ = k₁ from congrArg Prod.fst hblock]
      simpa using h0)
    rw [Kernel.takePid_pmm, ← show _ = k₁ from congrArg Prod.fst hblock] at hg
    refine ⟨fun f hf => hg.used f (by simpa using hf), fun hf => hg.failed ?_⟩
    exact Bool.or_eq_true_iff.2 (Or.inl (by simpa using hf))

/-- While no allocation fails, a call makes a process or finds no slot. -/
theorem CreateStep.cases {c : CreateCall} {r kp : Nat} {kernelProc : Proc} {calls : List (CreateCall × Nat)}
    (ht : TableInv kp kernelProc calls k) (hl : image.Linked) (ho : OwnTables image k.pmm Ds Opened)
    (hp : PagesOwn image first k.pmm Ds Held) (h : CreateStep image k (c, r) k')
    (hok : k'.pmm.failed = false) : r = 0 ∧ k' = k ∨ r ≠ 0 ∧ ∃ D stackPhys,
      ProcessMade k k' c.entry r D ∧
        SpaceMade image first Ds Opened Held c.stackSize D stackPhys k.pmm k'.pmm := by
  have hcases := createProc_cases ht.frame0 h
  cases hcases with
  | noSlot _ => exact Or.inl ⟨rfl, rfl⟩
  | @noBlock i hslot hnull =>
    have hfailed : ((k.claimSlot i).pmm.failed || ((k.claimSlot i).kmalloc sizeofProc).2 == 0) = false :=
      hok
    rw [hnull, Bool.or_eq_false_iff] at hfailed
    exact absurd hfailed.2 (by decide)
  | @started i proc r k₁ k' hslot hblock hne hout =>
    obtain ⟨hi₀, hlt, hempty, hclaim⟩ := ht.claim hslot
    rw [hclaim] at hblock
    obtain ⟨rfl, rfl⟩ := Prod.mk.inj hblock
    obtain ⟨live, -, -, hnew⟩ := ht.kmalloc alignRequest_sizeofProc (by decide)
    obtain ⟨-, hnew⟩ := hnew hne
    have hspace : KernelSpace image
        ((k.kmalloc sizeofProc).1.takePid (Mm.kmalloc k.heap sizeofProc).2 c.priority).pmm :=
      ⟨ho.kernel.reserved, ho.kernel.empty, ho.kernel.directory⟩
    obtain ⟨hr, hspaceDone⟩ := hout.succeeded hspace hl hok
    obtain ⟨dirPhys, stackPhys, s₁, s', hbuilt, hdirNe, hmap, hmem, hframes, hdir⟩ := hspaceDone hne
    have hf := hout.frame ht.frame0
    obtain ⟨hlist, hrunning, hcontext⟩ :
        k'.procList = Function.update k.procList i (Mm.kmalloc k.heap sizeofProc).2 ∧
        (k'.procs (Mm.kmalloc k.heap sizeofProc).2).procstate = .running ∧
        ∃ old, (k'.procs (Mm.kmalloc k.heap sizeofProc).2).context = initialContext old c.entry := by
      rcases hout.slot ht.frame0 with ⟨hz, -⟩ | ⟨-, hlist, -, dir, -, hrecord⟩
      · exact absurd (hr.symm.trans hz) hne
      · exact ⟨hlist, by rw [hrecord]; rfl, _, by rw [hrecord]; rfl⟩
    have hprocs : ∀ q, UserProcess k q → k'.procs q = k.procs q := by
      rintro q ⟨-, l, -, hl, rfl⟩
      exact (hf.others _ (hnew l hl)).trans (Function.update_of_ne (hnew l hl) _ _)
    dsimp only at hr
    subst hr
    right
    refine ⟨hne, ?_⟩
    have hstart : PagesOwn image first ((k.kmalloc sizeofProc).1.takePid
        (Mm.kmalloc k.heap sizeofProc).2 c.priority).pmm Ds Held :=
      hp.of_sameFrame (fun _ hf => hf) (.refl _ _) (fun _ _ => .refl _ _) fun _ _ _ _ => .refl _ _
    have hstartOwn : OwnTables image ((k.kmalloc sizeofProc).1.takePid
        (Mm.kmalloc k.heap sizeofProc).2 c.priority).pmm Ds Opened :=
      ho.of_sameFrame (fun _ hf => hf) (.refl _ _) (.refl _ _) fun _ _ => ⟨.refl _ _, .refl _ _⟩
    obtain ⟨D, rfl, hmade⟩ := hstart.newSpace hstartOwn hl hbuilt hdirNe hmap
    have hold : ∀ q, UserProcess k q → UserProcess k' q := by
      rintro q ⟨hq, l, h₀, h₁, hlq⟩
      refine ⟨hq, l, h₀, h₁, ?_⟩
      rw [hlist, Function.update_of_ne]
      · exact hlq
      · rintro rfl
        exact hq (hlq ▸ hempty)
    have hdone := hmade.of_eq hmem hframes
    refine ⟨D, stackPhys, ⟨?_, ⟨hne, i, hi₀, hlt, by rw [hlist]; exact Function.update_self _ _ _⟩, ?_,
      fun q hq => ⟨hold q hq, hprocs q hq⟩, hcontext, hrunning, hdir, hf.cr3, hf.used⟩,
      ⟨hdone.place, hdone.free, hdone.stack, hdone.own, hdone.pages, hdone.entries, hdone.mem, hdone.shown⟩⟩
    · rintro ⟨-, l, -, hl, he⟩
      exact hnew l hl he
    · rintro q ⟨hq, l, h₀, h₁, hlq⟩
      rw [hlist] at hlq
      by_cases he : l = i
      · left
        rw [← hlq, he]
        exact Function.update_self _ _ _
      · rw [Function.update_of_ne he] at hlq
        exact Or.inr ⟨hq, l, h₀, h₁, hlq⟩

theorem UserSpaces.created {c : CreateCall} {r : Nat} (hi : UserSpaces image first Opened k Held)
    (h : CreateStep image k (c, r) k') (hok : k'.pmm.failed = false) :
    r = 0 ∧ k' = k ∨ r ≠ 0 ∧ ∃ D stackPhys, ProcessMade k k' c.entry r D ∧
      SpaceMade image first (SpaceOf k) Opened Held c.stackSize D stackPhys k.pmm k'.pmm := by
  obtain ⟨kp, kernelProc, calls, ht⟩ := hi.spaces.table
  exact h.cases ht hi.spaces.linked hi.spaces.own hi.pages hok

/-- The spaces with a new one among them. -/
theorem UserSpaces.made {c : CreateCall} {r stackPhys : Nat} (hi : UserSpaces image first Opened k Held)
    (h : CreateStep image k (c, r) k') (hmade : ProcessMade k k' c.entry r D)
    (hspace : SpaceMade image first (SpaceOf k) Opened Held c.stackSize D stackPhys k.pmm k'.pmm) :
    UserSpaces image first (fun D' => Opened D' ∨ D' = D ∧ ¬ StackBelow c.stackSize) k'
      fun f => Held f ∨ StackAbove c.stackSize stackPhys f := by
  have hold : ∀ D', SpaceOf k D' → SpaceOf k' D' := by
    rintro D' ⟨hlow, q, hq, hdir⟩
    obtain ⟨hq', hsame⟩ := hmade.kept q hq
    exact ⟨hlow, q, hq', by rw [hsame]; exact hdir⟩
  have hcase : ∀ D', SpaceOf k' D' → D' = D ∨ SpaceOf k D' := by
    rintro D' ⟨hlow, q, hq, hdir⟩
    rcases hmade.cases q hq with rfl | hq'
    · exact Or.inl (kp2v_frame_inj hlow hspace.place (hdir.symm.trans hmade.directory))
    · rw [(hmade.kept q hq').2] at hdir
      exact Or.inr ⟨hlow, q, hq', hdir⟩
  have hnew : ∀ q, UserProcess k q → (k'.procs q).pageDirectory ≠ kp2v (4096 * D) := by
    intro q hq heq
    obtain ⟨D', hD', hdir⟩ := hi.spaces.placed q hq
    rw [(hmade.kept q hq).2, hdir] at heq
    have hused := (hi.spaces.own.directory D' hD').used
    rw [kp2v_frame_inj hD'.1 hspace.place heq, hspace.free] at hused
    cases hused
  obtain ⟨hlow, -, -, -⟩ := image.frames_low (i := 768) (by decide) (by decide)
  have hreserved := hi.spaces.own.kernel.reserved image.dirFrame (by omega)
  have hkernel : k.pmm.mem.SameFrame k'.pmm.mem image.dirFrame :=
    hspace.mem _ hreserved fun hT => absurd hT not_kernelTable_dirFrame
  obtain ⟨kp, kernelProc, calls, ht⟩ := hi.spaces.table
  have ht' := ht.step h
  refine ⟨⟨hi.spaces.linked, ⟨_, _, _, ht'⟩, fun q hq => ?_, hspace.own.mono hcase fun _ _ h => h⟩,
    hspace.pages.mono hcase fun _ h => h, hi.low, fun p q hp hq heq => ?_,
    fun D' hD' hclosed i h₀ h₁ => ?_, ?_, ?_⟩
  · rcases hmade.cases q hq with rfl | hq'
    · exact ⟨D, ⟨hspace.place, q, hq, hmade.directory⟩, hmade.directory⟩
    · obtain ⟨D', hD', hdir⟩ := hi.spaces.placed q hq'
      exact ⟨D', hold D' hD', by rw [(hmade.kept q hq').2]; exact hdir⟩
  · rcases hmade.cases p hp with hp' | hp'
    · rcases hmade.cases q hq with hq' | hq'
      · rw [hp', hq']
      · rw [hp', hmade.directory] at heq
        exact absurd heq.symm (hnew q hq')
    · rcases hmade.cases q hq with hq' | hq'
      · rw [hq', hmade.directory] at heq
        exact absurd heq (hnew p hp')
      · rw [(hmade.kept p hp').2, (hmade.kept q hq').2] at heq
        exact hi.distinct p q hp' hq' heq
  · rw [hkernel.word h₁]
    obtain ⟨hclosed, hnarrow⟩ := not_or.1 hclosed
    rcases hcase D' hD' with rfl | hD''
    · exact hspace.entries (by_contra fun hwide => hnarrow ⟨rfl, hwide⟩) i h₀ h₁
    · have hd := hi.spaces.own.directory D' hD''
      rw [(hspace.mem D' hd.used fun hT => absurd (Or.inl ⟨D', Or.inr hD'', Or.inl rfl⟩)
        (hi.kernelTable hT)).word h₁]
      exact hi.shares D' hD'' hclosed i h₀ h₁
  · rw [ht'.kernelSlot, ht'.kernelProc, ← ht.kernelProc, ← ht.kernelSlot]
    exact hi.kernel
  · obtain ⟨C, hC, hclosed, hcr3⟩ := hi.loaded
    refine ⟨C, hC.imp id (hold C), ?_, hmade.cr3.trans hcr3⟩
    rintro (hopen | ⟨rfl, -⟩)
    · exact hclosed hopen
    · have hused : k.pmm.framemap.test C = true := by
        rcases hC with rfl | hC
        · exact hreserved
        · exact (hi.spaces.own.directory C hC).used
      rw [hspace.free] at hused
      cases hused

theorem UserSpaces.create {c : CreateCall} {r : Nat} (hi : UserSpaces image first Opened k Held)
    (huser : StackBelow c.stackSize) (h : CreateStep image k (c, r) k') (hok : k'.pmm.failed = false) :
    UserSpaces image first Opened k' Held := by
  rcases hi.created h hok with ⟨-, rfl⟩ | ⟨-, D, stackPhys, hmade, hspace⟩
  · exact hi
  · have hopened : (fun D' => Opened D' ∨ D' = D ∧ ¬ StackBelow c.stackSize) = Opened :=
      funext fun D' => propext ⟨fun h => h.resolve_right fun hwide => hwide.2 huser, Or.inl⟩
    have hall := hi.made h hmade hspace
    rw [hopened] at hall
    exact hall.mono fun f hf => Or.inl hf

end UserSpaces

end BrownieOS.Process
