import BrownieOS.Process.MessageReady

/-!
# Isolation for every stack size

`create_proc` takes any stack size. A stack of more than 3 GiB has wrapped: its pages go on above
3 GiB, in the tables that all directories share, and its directory lets user mode in there. Such a
stack takes more than half of all frames, so there is only one, and the kernel's tables let user
mode into no frames but its own.
-/
namespace BrownieOS.Process

open BrownieOS.Lib BrownieOS.Lib.Word32 BrownieOS.Mm

/-- Processes are made, with any stack or with any message; frames are taken from highmem, and
frames that are held are mapped below 3 GiB. Each with any result. -/
def SetupStep (image : KernelImage) (t : UserState) : UserEvent → UserState → Prop
  | .create c r, t' => CreateStep image t.kernel (c, r) t'.kernel ∧ t'.held = t.held
  | .message msg r, t' => 0 ∉ msg ∧
      makeUserProcWithMessage image t.kernel (some msg) = some (t'.kernel, r) ∧ t'.held = t.held
  | .alloc flags count base, t' => flags = pmmFlagsHighmem ∧ UserStep image t (.alloc flags count base) t'
  | .map proc virt phys pages writable ok, t' => UserStep image t (.map proc virt phys pages writable ok) t'
  | _, _ => False

/-- The message, with the NUL behind it, fits in its page. -/
def MessageFits : UserEvent → Prop
  | .message msg _ => msg.length < 4096
  | _ => True

/-- The frame `f` is one of those that `kheap_init` took for the heap. -/
def HeapFrame (heap : Heap) (f : Nat) : Prop :=
  kv2p heap.start / 4096 ≤ f ∧ f < kv2p heap.start / 4096 + kheapPages

/-- The frames of two processes are apart, and none is the kernel's: no directory, no table, and
nothing of the image or of the heap. -/
structure PhysicallyIsolated (image : KernelImage) (heap : Heap) (first : FrameMap) (k : Kernel) : Prop
    extends Isolated image first k where
  image : ∀ p, Listed k p → ∀ f < 1024, ¬ ReachesFrame k.pmm.mem (kv2p (k.procs p).pageDirectory) f
  heap : ∀ p, Listed k p → ∀ f, HeapFrame heap f →
    ¬ ReachesFrame k.pmm.mem (kv2p (k.procs p).pageDirectory) f

/-- The frame in the middle of memory, which lies in every stack of more than 3 GiB. -/
abbrev midFrame : Nat := 0x80000

/-- The spaces while processes are set up: at most one is opened above 3 GiB, with the middle frame
in its stack, and the kernel's tables let user mode into the frames `Shown`, which are mapped
nowhere below. -/
structure SetupSpaces (image : KernelImage) (first : FrameMap) (Opened Shown : Nat → Prop)
    (t : UserState) : Prop where
  spaces : UserSpaces image first Opened t.kernel fun f => t.held f ∨ Shown f
  apart : ∀ f, t.held f → ¬ Shown f
  shown : KernelPages image Shown t.kernel.pmm.mem
  single : ∀ D D', Opened D → Opened D' → D = D'
  middle : ∀ D, Opened D → t.kernel.pmm.framemap.test midFrame = true

/-- The invariant of a run. -/
def SetupInv (image : KernelImage) (first : FrameMap) (t : UserState) : Prop :=
  t.kernel.pmm.framemap.test 0 = true ∧
    (t.kernel.pmm.failed = false → ∃ Opened Shown, SetupSpaces image first Opened Shown t)

section SetupRuns

variable {image : KernelImage} {first : FrameMap} {k₀ k : Kernel} {t t' : UserState}
  {Held Opened Shown : Nat → Prop} {D p f stackSize stackPhys : Nat} {c : CreateCall} {e : UserEvent}
  {es : List UserEvent} {s s' : Pmm} {Ds : Nat → Prop}

/-! ## A stack of more than 3 GiB -/

theorem stackPages_wide (h : ¬ StackBelow stackSize) : 0xC0001 ≤ stackPages stackSize := by
  obtain ⟨l, hl, hhigh⟩ : ∃ l < stackPages stackSize, 0xC0000000 ≤ pageVirt (stackBottomAl stackSize) l := by
    by_contra hno
    exact h fun l hl => by_contra fun hge => hno ⟨l, hl, by omega⟩
  obtain ⟨n, hn⟩ : ∃ n, l + (n + 1) = stackPages stackSize := ⟨stackPages stackSize - l - 1, by omega⟩
  rw [stack_virt hn] at hhigh
  split at hhigh
  · omega
  · omega

/-- It takes the middle frame, which was free. -/
theorem SpaceMade.middle (h : SpaceMade image first Ds Opened Held stackSize D stackPhys s s')
    (hwide : ¬ StackBelow stackSize) :
    s.framemap.test midFrame = false ∧ s'.framemap.test midFrame = true := by
  have hpages := stackPages_wide hwide
  obtain ⟨hlast, -, -⟩ := h.stack (stackPhys / 4096 + (stackPages stackSize - 1))
    ⟨Nat.le_add_right _ _, by simp only [framesOf, pageFrame]; omega⟩
  simp only [nFrames] at hlast
  exact (h.stack midFrame ⟨by simp only [framesOf, pageFrame, midFrame]; omega,
    by simp only [framesOf, pageFrame, midFrame]; omega⟩).2

/-! ## The steps -/

theorem SetupStep.grows (h : SetupStep image t e t') (h0 : t.kernel.pmm.framemap.test 0 = true) :
    t.kernel.pmm.Grows t'.kernel.pmm := by
  cases e with
  | create c r => exact h.1.grows h0
  | message msg r => exact makeUserProcWithMessage_grows h0 h.2.1
  | alloc flags count base => exact UserStep.grows h.2 h0
  | map proc virt phys pages writable ok =>
    have hstep : UserStep image t (.map proc virt phys pages writable ok) t' := h
    exact hstep.grows h0
  | kmap paddr vaddr => exact h.elim
  | kunmap vaddr => exact h.elim
  | load proc => exact h.elim
  | store va c => exact h.elim

theorem SetupSpaces.create {r : Nat} (hi : SetupSpaces image first Opened Shown t)
    (h : CreateStep image t.kernel (c, r) t'.kernel) (hheld : t'.held = t.held)
    (hok : t'.kernel.pmm.failed = false) :
    ∃ Opened' Shown', SetupSpaces image first Opened' Shown' t' := by
  have hg := h.grows (hi.spaces.spaces.own.kernel.reserved 0 (by decide))
  rcases hi.spaces.created h hok with ⟨-, hsame⟩ | ⟨-, D, stackPhys, hmade, hspace⟩
  · refine ⟨Opened, Shown, ?_, ?_, ?_, hi.single, ?_⟩
    · rw [hsame, hheld]
      exact hi.spaces
    · rw [hheld]
      exact hi.apart
    · rw [hsame]
      exact hi.shown
    · rw [hsame]
      exact hi.middle
  by_cases hbelow : StackBelow c.stackSize
  · refine ⟨Opened, Shown, ?_, ?_, ?_, hi.single, fun D hD => hg.used _ (hi.middle D hD)⟩
    · rw [hheld]
      exact hi.spaces.create hbelow h hok
    · rw [hheld]
      exact hi.apart
    · exact hi.shown.of_sameFrame fun f hT =>
        hspace.mem f (hi.spaces.spaces.own.kernel.reserved f hT.low) fun _ => hbelow
  · obtain ⟨hfree, hused⟩ := hspace.middle hbelow
    -- no space was opened before this one
    have hnone : ∀ D', ¬ Opened D' := by
      intro D' hopen
      rw [hi.middle D' hopen] at hfree
      cases hfree
    refine ⟨fun D' => Opened D' ∨ D' = D ∧ ¬ StackBelow c.stackSize,
      fun f => Shown f ∨ StackAbove c.stackSize stackPhys f, ?_, ?_, hspace.shown hi.shown, ?_, fun _ _ => hused⟩
    · rw [hheld]
      exact (hi.spaces.made h hmade hspace).mono fun f hf => or_assoc.2 hf
    · rw [hheld]
      rintro f hf (hold | habove)
      · exact hi.apart f hf hold
      · have hstack := (hspace.stack f habove.mem).2.1
        rw [(hi.spaces.pages.held f (Or.inl hf)).used] at hstack
        cases hstack
    · rintro D₁ D₂ (h₁ | ⟨h₁, -⟩) (h₂ | ⟨h₂, -⟩)
      · exact absurd h₁ (hnone D₁)
      · exact absurd h₁ (hnone D₁)
      · exact absurd h₂ (hnone D₂)
      · exact h₁.trans h₂.symm

theorem SetupSpaces.alloc {flags : PmmFlags} {count base : Nat} (hi : SetupSpaces image first Opened Shown t)
    (h : UserStep image t (.alloc flags count base) t') (hok : t'.kernel.pmm.failed = false) :
    SetupSpaces image first Opened Shown t' := by
  obtain ⟨s, halloc, hk, hheld⟩ := h
  rw [hk] at hok
  have h0 := hi.spaces.spaces.own.kernel.reserved 0 (by decide)
  have hg := Pmm.allocPages_grows h0 halloc
  have hne := hi.spaces.alloc_ne_zero halloc hok
  have hall := hi.spaces.alloc halloc hne
  obtain ⟨-, heq⟩ := Pmm.allocPages_eq_some halloc
  have hmem : s.mem = t.kernel.pmm.mem := by rw [heq]
  constructor
  · rw [hk, hheld]
    exact hall.mono fun f hf => by tauto
  · rw [hheld]
    rintro f (hf | hf) hshown
    · exact hi.apart f hf hshown
    · rcases Pmm.allocPages_cases h0 halloc with ⟨hz, -⟩ | ⟨-, hnew, -⟩
      · exact hne hz
      · have hfree := hnew.free f hf.1 hf.2
        rw [(hi.spaces.pages.held f (Or.inr hshown)).used] at hfree
        cases hfree
  · rw [hk]
    dsimp only
    rw [hmem]
    exact hi.shown
  · exact hi.single
  · intro D hD
    rw [hk]
    exact hg.used _ (hi.middle D hD)

theorem SetupSpaces.map {proc virt phys pages : Nat} {w ok : Bool} (hi : SetupSpaces image first Opened Shown t)
    (h : UserStep image t (.map proc virt phys pages w ok) t') :
    SetupSpaces image first Opened Shown t' := by
  obtain ⟨hproc, huser, hin, hcall, hheld⟩ := h
  have hg := procMapPages_grows (hi.spaces.spaces.own.kernel.reserved 0 (by decide)) hcall
  have hall := hi.spaces.mapPages hproc huser (fun f hf => Or.inl (hin f hf)) hcall
  refine ⟨?_, ?_, ?_, hi.single, fun D hD => hg.used _ (hi.middle D hD)⟩
  · rw [hheld]
    refine hall.mono fun f hf => ?_
    rcases hf with ⟨hf, hnot⟩ | hf
    · exact ⟨Or.inl hf, hnot⟩
    · exact ⟨Or.inr hf, fun hmem => hi.apart f (hin f hmem) hf⟩
  · rw [hheld]
    exact fun f hf => hi.apart f hf.1
  · exact hi.shown.of_sameFrame fun f hT => hi.spaces.map_table_same hproc huser hcall hT

theorem SetupSpaces.message {msg : List Byte} {r : Nat} (hi : SetupSpaces image first Opened Shown t)
    (hmsg : msg.length < 4096)
    (h : makeUserProcWithMessage image t.kernel (some msg) = some (t'.kernel, r)) (hheld : t'.held = t.held)
    (hok : t'.kernel.pmm.failed = false) : SetupSpaces image first Opened Shown t' := by
  have hdone := (hi.spaces.message hmsg h hok).unseen
  have hg := makeUserProcWithMessage_grows (hi.spaces.spaces.own.kernel.reserved 0 (by decide)) h
  refine ⟨?_, ?_, hdone.shown hi.shown, hi.single, fun D hD => hg.used _ (hi.middle D hD)⟩
  · rw [hheld]
    exact hdone.spaces
  · rw [hheld]
    exact hi.apart

theorem SetupSpaces.step (hi : SetupSpaces image first Opened Shown t) (h : SetupStep image t e t')
    (hfits : MessageFits e) (hok : t'.kernel.pmm.failed = false) :
    ∃ Opened' Shown', SetupSpaces image first Opened' Shown' t' := by
  cases e with
  | create c r => exact hi.create h.1 h.2 hok
  | message msg r => exact ⟨_, _, hi.message hfits h.2.1 h.2.2 hok⟩
  | alloc flags count base => exact ⟨_, _, hi.alloc h.2 hok⟩
  | map proc virt phys pages writable ok => exact ⟨_, _, hi.map h⟩
  | kmap paddr vaddr => exact h.elim
  | kunmap vaddr => exact h.elim
  | load proc => exact h.elim
  | store va c => exact h.elim

theorem SetupInv.step (hi : SetupInv image first t) (h : SetupStep image t e t') (hfits : MessageFits e) :
    SetupInv image first t' := by
  obtain ⟨h0, hspaces⟩ := hi
  have hg := h.grows h0
  refine ⟨hg.used 0 h0, fun hok => ?_⟩
  obtain ⟨Opened, Shown, hi⟩ := hspaces (hg.not_failed hok)
  exact hi.step h hfits hok

theorem Boot.setupSpaces (hb : Boot image k₀ k) (hp : Loaded image k₀.pmm) (hl : image.Linked)
    (hcr3 : k₀.cr3 = image.dirPaddr) :
    SetupSpaces image k.pmm.framemap Closed (fun _ => False) ⟨k, fun _ => False⟩ := by
  refine ⟨(hb.userSpaces hp hl hcr3).mono fun f hf => ?_, fun f hf => hf.elim, fun i h₀ h₁ j hj _ hu => ?_,
    fun D _ hD => hD.elim, fun D hD => hD.elim⟩
  · rcases hf with hf | hf
    · exact hf
    · exact hf
  · have hclear := hp.memory.noUser (Or.inr ⟨i, h₀, h₁, rfl⟩) j hj
    dsimp only at hu
    rw [hb.booted.mem] at hu
    exact absurd (hclear.symm.trans hu) (by decide)

theorem SetupInv.run (hb : Boot image k₀ k) (hp : Loaded image k₀.pmm) (hl : image.Linked)
    (hcr3 : k₀.cr3 = image.dirPaddr)
    (hrun : Run (fun t e t' => SetupStep image t e t' ∧ MessageFits e) ⟨k, fun _ => False⟩ es t) :
    SetupInv image k.pmm.framemap t :=
  hrun.invariant (fun _ _ _ hi h => hi.step h.1 h.2)
    ⟨(hb.spacesOwn hp hl).own.kernel.reserved 0 (by decide), fun _ => ⟨_, _, hb.setupSpaces hp hl hcr3⟩⟩

/-! ## Isolation -/

/-- What a process reaches is a page of its directory, or, if its stack reaches above 3 GiB, a frame
shown by the kernel's tables. -/
theorem SetupSpaces.reached (hi : SetupSpaces image first Opened Shown t) (hp : Listed t.kernel p)
    (h : ReachesFrame t.kernel.pmm.mem (kv2p (t.kernel.procs p).pageDirectory) f) :
    ∃ D, UserProcess t.kernel p ∧ SpaceOf t.kernel D ∧ (t.kernel.procs p).pageDirectory = kp2v (4096 * D) ∧
      (PageFrame t.kernel.pmm.mem D f ∨ Opened D ∧ Shown f) := by
  obtain ⟨va, hva, hu, pa, htr, rfl⟩ := h
  obtain ⟨D, -, hdir, ⟨hproc, hD, hptr⟩ | hD⟩ := hi.spaces.listed_directory hp
  · rw [hdir] at hu htr
    refine ⟨D, hproc, hD, hptr, ?_⟩
    obtain ⟨found, hwalk, rfl⟩ := Option.map_eq_some_iff.1 htr
    have hframe : (framePaddr found.2.frame + va % 4096) / 4096 = found.2.frame.toNat := by
      simp only [framePaddr]
      omega
    rw [hframe]
    rw [userAccessible, hwalk, Option.any_some, Bool.and_eq_true] at hu
    by_cases hlow : pageDirIdx va < 768
    · exact Or.inl (walk_pageFrame hwalk hlow).2
    · have hidx := pageDirIdx_lt hva
      have hk := hi.spaces.spaces.own.kernelHalf D hD
      rw [walk_frames, if_pos (hk.present _ (by omega) hidx), hk.frame _ (by omega) hidx] at hwalk
      split at hwalk
      · rename_i hpage
        cases hwalk
        exact Or.inr ⟨hk.user _ (by omega) hidx hu.1,
          hi.shown _ (by omega) hidx _ (pageTblIdx_lt va) hpage hu.2⟩
      · cases hwalk
  · rw [hdir, hD, hi.spaces.kernel_unreached hva] at hu
    cases hu

/-- It is a frame for pages. -/
theorem SetupSpaces.reached_frame (hi : SetupSpaces image first Opened Shown t) (hp : Listed t.kernel p)
    (h : ReachesFrame t.kernel.pmm.mem (kv2p (t.kernel.procs p).pageDirectory) f) :
    UserFrame first t.kernel.pmm (SpaceOf t.kernel) f := by
  obtain ⟨D, -, hD, -, hpage | ⟨-, hshown⟩⟩ := hi.reached hp h
  · exact (hi.spaces.pages.pages D hD f hpage).1
  · exact hi.spaces.pages.held f (Or.inr hshown)

theorem SetupSpaces.isolated (hi : SetupSpaces image first Opened Shown t) :
    Isolated image first t.kernel := by
  constructor
  · intro p q hp hq hne f hf hf'
    obtain ⟨D, hproc, hD, hdir, hreach⟩ := hi.reached hp hf
    obtain ⟨D', hproc', hD', hdir', hreach'⟩ := hi.reached hq hf'
    have hapart : D ≠ D' := by
      intro he
      rw [he] at hdir
      exact hne (hi.spaces.distinct p q hproc hproc' (hdir.trans hdir'.symm))
    rcases hreach with hpage | ⟨hopen, hshown⟩
    · rcases hreach' with hpage' | ⟨-, hshown'⟩
      · exact hi.spaces.pages.unshared D D' hD hD' hapart f hpage hpage'
      · exact (hi.spaces.pages.pages D hD f hpage).2 (Or.inr hshown')
    · rcases hreach' with hpage' | ⟨hopen', -⟩
      · exact (hi.spaces.pages.pages D' hD' f hpage').2 (Or.inr hshown)
      · exact hapart (hi.single D D' hopen hopen')
  · intro p hp f hf
    have hown := hi.reached_frame hp hf
    exact ⟨hown.fresh, hown.used⟩
  · intro p hp f hf
    have hown := hi.reached_frame hp hf
    refine ⟨hown.not_spaceFrame hi.spaces.low, fun hT => ?_⟩
    have hhigh := hown.high hi.spaces.low
    have := hT.low
    omega

/-- The frames of the heap are in use after boot. -/
theorem Boot.heapFrame_used (hb : Boot image k₀ k) (h : HeapFrame k₀.heap f)
    (hlow : ∀ f < 1024, k.pmm.framemap.test f = true) : k.pmm.framemap.test f = true := by
  obtain ⟨mem, framemap, h0, hinit⟩ := hb.heap
  unfold kheapInit at hinit
  split at hinit
  · cases hinit
  · rename_i base framemap' halloc
    obtain ⟨hheap, hframes⟩ := Prod.mk.inj (Option.some.inj hinit)
    have hstart : k₀.heap.start = kp2v base := by
      rw [← hheap]
      rfl
    unfold HeapFrame at h
    rw [hstart] at h
    by_cases hbase : base = 0
    · -- no frames for the heap: it lies over the image
      rw [hbase, show kv2p (kp2v 0) = 0 from rfl] at h
      simp only [kheapPages] at h
      exact hlow f (by omega)
    · have hnew := allocPages_allocated h0 halloc hbase
      obtain ⟨F, rfl⟩ : ∃ F, base = 4096 * F := ⟨base / 4096, by have := hnew.aligned; omega⟩
      have hlow : F < lowFrames := by
        rcases allocPages_lowmem h0 (by decide) halloc with hbelow | ⟨hz, -⟩
        · simp only [kernIdentityPhysEnd, kheapPages] at hbelow
          simp only [lowFrames]
          omega
        · exact absurd hz hbase
      rw [kv2p_kp2v_frame hlow] at h
      rw [hb.booted.framemap, ← hframes, hnew.marked, Bitmap.test_setRange (by decide), Bool.or_eq_true,
        decide_eq_true_eq]
      exact Or.inl (by omega)

/-- In every state that setting up processes reaches without a failed allocation, whatever their
stacks, if every message fits in its page, the processes are isolated from each other and from the
kernel. -/
theorem setup_isolated (hb : Boot image k₀ k) (hp : Loaded image k₀.pmm) (hl : image.Linked)
    (hcr3 : k₀.cr3 = image.dirPaddr)
    (hrun : Run (fun t e t' => SetupStep image t e t' ∧ MessageFits e) ⟨k, fun _ => False⟩ es t)
    (hok : t.kernel.pmm.failed = false) : PhysicallyIsolated image k₀.heap k.pmm.framemap t.kernel := by
  obtain ⟨Opened, Shown, hi⟩ := (SetupInv.run hb hp hl hcr3 hrun).2 hok
  have hlow := (hb.spacesOwn hp hl).own.kernel.reserved
  have hused : ∀ p, Listed t.kernel p → ∀ f, k.pmm.framemap.test f = true →
      ¬ ReachesFrame t.kernel.pmm.mem (kv2p (t.kernel.procs p).pageDirectory) f := by
    intro p hlisted f hf hreach
    rw [(hi.reached_frame hlisted hreach).fresh] at hf
    cases hf
  exact ⟨hi.isolated, fun p hlisted f hf => hused p hlisted f (hlow f hf),
    fun p hlisted f hf => hused p hlisted f (hb.heapFrame_used hf hlow)⟩

/-! ## A run with such a stack -/

/-- A stack of 3 GiB: its lowest page is the last below 4 GiB, and the others are all below 3 GiB. -/
def wideCall : CreateCall := ⟨0x400000, 0, 0xC0000000, 0, .normal⟩

theorem wideCall_wide : ¬ StackBelow wideCall.stackSize := fun h =>
  absurd (h 0 (by decide)) (by decide)

/-- A process with a message, one with that stack, and a frame mapped into the first. -/
theorem wide_setup {msg : List Byte} (hlen : msg.length < 4096) (hmsg : 0 ∉ msg) :
    ∃ k t, Boot sampleImage pagedKernel k ∧
      Run (fun t e t' => SetupStep sampleImage t e t' ∧ MessageFits e) ⟨k, fun _ => False⟩
        [.message msg 0xC04000A0, .create wideCall 0xC0402150, .alloc pmmFlagsHighmem 1 0xF8005000,
          .map 0xC04000A0 0x402000 0xF8005000 1 true true] t ∧ t.kernel.pmm.failed = false := by
  obtain ⟨k, k₁, h⟩ := first_message hlen
  have hi := h.done.unseen.spaces
  have hready := hi.createReady
  obtain ⟨lo, hlo, hlo', hused⟩ := h.frames
  obtain ⟨fm, fm', hdir, hspace, hleft⟩ := spaceFrames_wide hused hlo (by omega) (by decide) (by decide)
    (show stackPages wideCall.stackSize = 0xC0001 from rfl) (by decide)
  obtain ⟨k₂, hcreate, hmade⟩ := hready.makes h.slot h.block (by decide) hspace hdir
  have hok := hready.succeeds h.failed hcreate (by decide) ⟨⟨_, hspace⟩, h.stack⟩
  obtain ⟨D, stackPhys, hnew, hmem⟩ := ((hi.created hcreate hok).resolve_left fun hz => absurd hz.1 (by decide)).2
  have hi₂ := hi.made hcreate hnew hmem
  obtain ⟨hp₁, -⟩ := (h.done.made (by decide)).2.1 rfl
  have hp₂ := (hnew.kept _ hp₁).1
  rw [← hmade.framemap] at hleft
  obtain ⟨gm, halloc, hleft'⟩ := hleft.highmem (by omega) (by omega) (by decide) (Nat.le_refl 1) (by decide)
  obtain ⟨s₃, hcall₃, hframes₃, -, hok₃⟩ := Pmm.takes halloc (by decide)
  have hi₃ := hi₂.alloc hcall₃ (by decide)
  obtain ⟨gm', halloc', -⟩ := hleft'.default (by omega) (Nat.le_refl 1) (by omega)
  rw [← hframes₃] at halloc'
  obtain ⟨k₄, hmap, hok₄, -⟩ := hi₃.spaces.maps_page hp₂ halloc' (by omega) (show 0x402000 < 4294967296 by decide)
    0xF8005000 true
  have hmessage : SetupStep sampleImage ⟨k, fun _ => False⟩ (.message msg 0xC04000A0) ⟨k₁, fun _ => False⟩ :=
    ⟨hmsg, h.call, rfl⟩
  have hwide : SetupStep sampleImage ⟨k₁, fun _ => False⟩ (.create wideCall 0xC0402150) ⟨k₂, fun _ => False⟩ :=
    ⟨hcreate, rfl⟩
  have htake : SetupStep sampleImage ⟨k₂, fun _ => False⟩ (.alloc pmmFlagsHighmem 1 0xF8005000)
      ⟨{ k₂ with pmm := s₃ }, fun f => False ∨ (framesOf 0xF8005000 1).Mem f⟩ := ⟨rfl, s₃, hcall₃, rfl, rfl⟩
  have huser : UserPages 0x402000 1 := by
    unfold UserPages
    decide
  have hmapped : SetupStep sampleImage ⟨{ k₂ with pmm := s₃ }, fun f => False ∨ (framesOf 0xF8005000 1).Mem f⟩
      (.map 0xC04000A0 0x402000 0xF8005000 1 true true)
      ⟨k₄, fun f => (False ∨ (framesOf 0xF8005000 1).Mem f) ∧ ¬ (framesOf 0xF8005000 1).Mem f⟩ :=
    ⟨hp₂, huser, fun f hf => Or.inr hf, hmap, rfl⟩
  exact ⟨k, _, h.boot.boot, (((Run.single ⟨hmessage, hlen⟩).snoc ⟨hwide, trivial⟩).snoc ⟨htake, trivial⟩).snoc
    ⟨hmapped, trivial⟩, (hok₄.trans hok₃).trans hok⟩

theorem setup_isolated_wide : ¬ StackBelow wideCall.stackSize ∧ ∃ k t, Boot sampleImage pagedKernel k ∧
    Run (SetupStep sampleImage) ⟨k, fun _ => False⟩
      [.message [0x48, 0x69] 0xC04000A0, .create wideCall 0xC0402150, .alloc pmmFlagsHighmem 1 0xF8005000,
        .map 0xC04000A0 0x402000 0xF8005000 1 true true] t ∧
    PhysicallyIsolated sampleImage pagedKernel.heap k.pmm.framemap t.kernel := by
  obtain ⟨k, t, hboot, hrun, hok⟩ := @wide_setup [0x48, 0x69] (by decide) (by decide)
  exact ⟨wideCall_wide, k, t, hboot, hrun.mono fun _ _ _ h => h.1,
    setup_isolated hboot pagedKernel_loaded sampleImage_linked rfl hrun hok⟩

end SetupRuns

end BrownieOS.Process
