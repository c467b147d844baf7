import BrownieOS.Process.MessageProc

/-!
# Physical isolation over whole runs

From boot on, processes are made, frames are taken and mapped below 3 GiB, another directory
is loaded, and user mode stores bytes wherever it can. As long as no allocation has failed, no
frame is reached from two processes, none of the kernel's is reached from any, and a process
sees only what is stored in its own space.
-/
namespace BrownieOS.Process

open BrownieOS.Lib BrownieOS.Lib.Word32 BrownieOS.Mm

/-- The kernel, and the frames handed out that are mapped nowhere yet, which the code leaves
to the callers to know. -/
structure UserState where
  kernel : Kernel
  held : Nat → Prop

inductive UserEvent
  | create (c : CreateCall) (r : Nat)
  | message (msg : List Byte) (r : Nat)
  | alloc (flags : PmmFlags) (count base : Nat)
  | map (proc virt phys pages : Nat) (writable ok : Bool)
  | kmap (paddr vaddr : Nat)
  | kunmap (vaddr : Nat)
  | load (proc : Nat)
  | store (va : Nat) (c : Byte)

/-- An entry of the process table. -/
def Listed (k : Kernel) (p : Nat) : Prop := p ≠ 0 ∧ ∃ i < maxProc, k.procList i = p

/-- A process made, its stack below 3 GiB, or one made with a message of less than a page; frames
taken for pages; frames that are held mapped below 3 GiB; any frame mapped for the kernel, and a
page of the highmem window unmapped; the directory of a process loaded; a byte stored in user mode
at any address that is open to it. Each with any result. -/
def UserStep (image : KernelImage) (t : UserState) : UserEvent → UserState → Prop
  | .create c r, t' => UserPages (stackBottomAl c.stackSize) (stackPages c.stackSize) ∧
      CreateStep image t.kernel (c, r) t'.kernel ∧ t'.held = t.held
  | .message msg r, t' => msg.length < 4096 ∧
      makeUserProcWithMessage image t.kernel (some msg) = some (t'.kernel, r) ∧ t'.held = t.held
  | .alloc flags count base, t' => ∃ s, t.kernel.pmm.allocPages flags count = some (s, base) ∧
      t'.kernel = { t.kernel with pmm := s } ∧
      t'.held = fun f => t.held f ∨ (framesOf base count).Mem f
  | .map proc virt phys pages writable ok, t' => UserProcess t.kernel proc ∧ UserPages virt pages ∧
      (∀ f, (framesOf phys pages).Mem f → t.held f) ∧
      procMapPages t.kernel proc virt phys pages writable = some (t'.kernel, ok) ∧
      t'.held = fun f => t.held f ∧ ¬ (framesOf phys pages).Mem f
  | .kmap paddr vaddr, t' => t.kernel.pmm.kmap image.dir paddr = (t'.kernel.pmm, vaddr) ∧
      t'.kernel = { t.kernel with pmm := t'.kernel.pmm } ∧ t'.held = t.held
  | .kunmap vaddr, t' => 0xF8000000 ≤ vaddr ∧ vaddr < 4294967296 ∧
      t'.kernel = t.kernel.kunmap image vaddr ∧ t'.held = t.held
  | .load proc, t' => Listed t.kernel proc ∧
      t'.kernel = { t.kernel with cr3 := kv2p (t.kernel.procs proc).pageDirectory } ∧ t'.held = t.held
  | .store va c, t' => va < 4294967296 ∧ userAccessible t.kernel.pmm.mem t.kernel.cr3 va = true ∧
      ∃ pa, Mm.translate t.kernel.pmm.mem t.kernel.cr3 va = some pa ∧
        t'.kernel = { t.kernel with
          pmm := { t.kernel.pmm with mem := Function.update t.kernel.pmm.mem pa c } } ∧
        t'.held = t.held

/-- No two processes reach one frame, and what they reach was free at first, is in use, and
has no directory or table in it. -/
structure Isolated (image : KernelImage) (first : FrameMap) (k : Kernel) : Prop where
  apart : ∀ p q, Listed k p → Listed k q → p ≠ q → ∀ f,
    ReachesFrame k.pmm.mem (kv2p (k.procs p).pageDirectory) f →
      ¬ ReachesFrame k.pmm.mem (kv2p (k.procs q).pageDirectory) f
  fresh : ∀ p, Listed k p → ∀ f, ReachesFrame k.pmm.mem (kv2p (k.procs p).pageDirectory) f →
    first.test f = false ∧ k.pmm.framemap.test f = true
  system : ∀ p, Listed k p → ∀ f, ReachesFrame k.pmm.mem (kv2p (k.procs p).pageDirectory) f →
    ¬ SpaceFrame image k f ∧ ¬ KernelTable image f

/-- The step maps nothing into `q`, and stores nothing through its directory. -/
def Spares (q : Nat) (t : UserState) : UserEvent → Prop
  | .map proc _ _ _ _ _ => proc ≠ q
  | .store _ _ => t.kernel.cr3 ≠ kv2p (t.kernel.procs q).pageDirectory
  | _ => True

/-- The invariant of a run. -/
def UserInv (image : KernelImage) (first : FrameMap) (t : UserState) : Prop :=
  t.kernel.pmm.framemap.test 0 = true ∧
    (t.kernel.pmm.failed = false → UserSpaces image first Closed t.kernel t.held)

section Isolation

variable {image : KernelImage} {first : FrameMap} {k₀ k : Kernel} {t t' : UserState}
  {Held Opened : Nat → Prop}
  {C p q f va : Nat} {e : UserEvent} {es es' : List UserEvent}

theorem UserSpaces.listed_directory (hi : UserSpaces image first Opened k Held) (hp : Listed k p) :
    ∃ C, DirectoryOf image k C ∧ kv2p (k.procs p).pageDirectory = 4096 * C ∧
      (UserProcess k p ∧ SpaceOf k C ∧ (k.procs p).pageDirectory = kp2v (4096 * C) ∨ C = image.dirFrame) := by
  obtain ⟨hne, i, hlt, hlist⟩ := hp
  cases i with
  | zero =>
    refine ⟨image.dirFrame, Or.inl rfl, ?_, Or.inr rfl⟩
    rw [← hlist, hi.kernel, image.kv2p_dir]
  | succ i =>
    have huser : UserProcess k p := ⟨hne, i + 1, by omega, hlt, hlist⟩
    obtain ⟨D, hD, hdir⟩ := hi.spaces.placed p huser
    have hlow := hD.1
    exact ⟨D, Or.inr hD, by rw [hdir, kv2p_kp2v_frame (by omega)], Or.inl ⟨huser, hD, hdir⟩⟩

/-- A step gives no frame back, and takes no failure back. -/
theorem UserStep.grows (h : UserStep image t e t') (h0 : t.kernel.pmm.framemap.test 0 = true) :
    t.kernel.pmm.Grows t'.kernel.pmm := by
  cases e with
  | create c r => exact h.2.1.grows h0
  | message msg r => exact makeUserProcWithMessage_grows h0 h.2.1
  | alloc flags count base =>
    obtain ⟨s, halloc, hk, -⟩ := h
    rw [hk]
    exact Pmm.allocPages_grows h0 halloc
  | map proc virt phys pages writable ok => exact procMapPages_grows h0 h.2.2.2.1
  | kmap paddr vaddr =>
    rw [← show (t.kernel.pmm.kmap image.dir paddr).1 = t'.kernel.pmm from congrArg Prod.fst h.1]
    exact Pmm.kmap_grows _ image.dir paddr
  | kunmap vaddr =>
    rw [h.2.2.1]
    exact ⟨fun _ hf => hf, fun hf => hf⟩
  | load proc =>
    rw [h.2.1]
    exact .refl _
  | store va c =>
    obtain ⟨-, -, pa, -, hk, -⟩ := h
    rw [hk]
    exact ⟨fun _ hf => hf, fun hf => hf⟩

/-- An allocation that has not failed returns frames. -/
theorem UserSpaces.alloc_ne_zero {s : Pmm} {flags : PmmFlags} {count base : Nat}
    (hi : UserSpaces image first Opened k Held) (h : k.pmm.allocPages flags count = some (s, base))
    (hok : s.failed = false) : base ≠ 0 := by
  rcases Pmm.allocPages_cases (hi.spaces.own.kernel.reserved 0 (by decide)) h with ⟨-, hfailed⟩ | ⟨hne, -⟩
  · rw [hfailed] at hok
    cases hok
  · exact hne

/-- What a step does to the spaces while no allocation fails. -/
theorem UserSpaces.step (hi : UserSpaces image first Closed t.kernel t.held) (h : UserStep image t e t')
    (hok : t'.kernel.pmm.failed = false) : UserSpaces image first Closed t'.kernel t'.held := by
  cases e with
  | create c r =>
    obtain ⟨huser, hcall, hheld⟩ := h
    rw [hheld]
    exact hi.create huser hcall hok
  | message msg r =>
    obtain ⟨hmsg, hcall, hheld⟩ := h
    rw [hheld]
    exact (hi.message hmsg hcall hok).unseen.spaces
  | alloc flags count base =>
    obtain ⟨s, halloc, hk, hheld⟩ := h
    rw [hk] at hok ⊢
    rw [hheld]
    exact hi.alloc halloc (hi.alloc_ne_zero halloc hok)
  | map proc virt phys pages writable ok =>
    obtain ⟨hproc, huser, hin, hcall, hheld⟩ := h
    rw [hheld]
    exact hi.mapPages hproc huser hin hcall
  | kmap paddr vaddr =>
    obtain ⟨hmap, hk, hheld⟩ := h
    rw [hk, hheld, ← show (t.kernel.pmm.kmap image.dir paddr).1 = t'.kernel.pmm from congrArg Prod.fst hmap]
    exact hi.kmap paddr
  | kunmap vaddr =>
    obtain ⟨hv, hv', hk, hheld⟩ := h
    rw [hk, hheld]
    exact hi.kunmap (Nat.le_trans (by decide) hv) hv'
  | load proc =>
    obtain ⟨hlisted, hk, hheld⟩ := h
    obtain ⟨C, hC, hdir, -⟩ := hi.listed_directory hlisted
    rw [hk, hheld, hdir]
    exact hi.load hC id
  | store va c =>
    obtain ⟨hva, hu, pa, htr, hk, hheld⟩ := h
    rw [hk, hheld]
    exact hi.store hva hu htr c

/-- What a step that spares a process does to what the process sees. -/
theorem UserSpaces.step_view (hi : UserSpaces image first Closed t.kernel t.held) (h : UserStep image t e t')
    (hok : t'.kernel.pmm.failed = false) (hq : UserProcess t.kernel q) (hspare : Spares q t e) :
    ViewKept t.kernel t'.kernel q := by
  cases e with
  | create c r => exact hi.create_view h.1 h.2.1 hok hq
  | message msg r => exact (hi.message h.1 h.2.1 hok).unseen.views rfl q hq
  | alloc flags count base =>
    obtain ⟨s, halloc, hk, -⟩ := h
    rw [hk] at hok ⊢
    exact hi.alloc_view halloc (hi.alloc_ne_zero halloc hok) hq
  | map proc virt phys pages writable ok =>
    obtain ⟨hproc, huser, hin, hcall, -⟩ := h
    exact hi.map_view hproc huser hin hcall hq hspare
  | kmap paddr vaddr =>
    obtain ⟨hmap, hk, -⟩ := h
    rw [hk, ← show (t.kernel.pmm.kmap image.dir paddr).1 = t'.kernel.pmm from congrArg Prod.fst hmap]
    exact hi.unseen (hi.kmap paddr) (fun _ hf _ => kmap_frames hi.spaces.own.kernel.directory paddr hf) hq
  | kunmap vaddr =>
    rw [h.2.2.1]
    exact hi.kunmap_view (Nat.le_trans (by decide) h.1) h.2.1 hq
  | load proc =>
    have hk := h.2.1
    exact .of_eq hq (by rw [hk]) (by rw [hk]) (by rw [hk])
  | store va c =>
    obtain ⟨hva, hu, pa, htr, hk, -⟩ := h
    rw [hk]
    exact hi.store_view hva hu htr c hq hspare

theorem UserInv.step (hi : UserInv image first t) (h : UserStep image t e t') : UserInv image first t' := by
  obtain ⟨h0, hspaces⟩ := hi
  have hg := h.grows h0
  exact ⟨hg.used 0 h0, fun hok => (hspaces (hg.not_failed hok)).step h hok⟩

theorem Boot.no_process (hb : Boot image k₀ k) (p : Nat) : ¬ UserProcess k p := by
  intro ⟨hne, i, h₀, h₁, hlist⟩
  apply hne
  rw [← hlist, hb.booted.table, Function.update_of_ne (by omega)]
  exact if_pos h₁

theorem Boot.userSpaces (hb : Boot image k₀ k) (hp : Loaded image k₀.pmm) (hl : image.Linked)
    (hcr3 : k₀.cr3 = image.dirPaddr) : UserSpaces image k.pmm.framemap Closed k fun _ => False := by
  have hd := hb.booted
  have hspaces := hb.spacesOwn hp hl
  have hnone := hb.no_process
  have hempty : ∀ D, ¬ SpaceOf k D := fun D ⟨_, p, hproc, _⟩ => hnone p hproc
  refine ⟨hspaces, ⟨fun _ hf => hf, fun i hi => ?_, fun f hf => hf.elim, fun D hD => absurd hD (hempty D),
    fun D _ hD => absurd hD (hempty D)⟩, hspaces.own.kernel.reserved, fun p _ hproc => absurd hproc (hnone p),
    fun D hD => absurd hD (hempty D), ?_, ⟨image.dirFrame, Or.inl rfl, id, ?_⟩⟩
  · rw [hd.mem]
    exact hp.paged.userWords i hi
  · rw [hd.table, Function.update_self, hd.record]
    rfl
  · rw [hd.cr3, hcr3]
    exact image.kv2p_dir

theorem UserInv.run (hb : Boot image k₀ k) (hp : Loaded image k₀.pmm) (hl : image.Linked)
    (hcr3 : k₀.cr3 = image.dirPaddr) (hrun : Run (UserStep image) ⟨k, fun _ => False⟩ es t) :
    UserInv image k.pmm.framemap t :=
  hrun.invariant (fun _ _ _ hi h => hi.step h)
    ⟨(hb.spacesOwn hp hl).own.kernel.reserved 0 (by decide), fun _ => hb.userSpaces hp hl hcr3⟩

/-- What a process reaches is a page of its directory; the kernel's process reaches nothing. -/
theorem UserSpaces.reached (hi : UserSpaces image first Closed k Held) (hp : Listed k p)
    (h : ReachesFrame k.pmm.mem (kv2p (k.procs p).pageDirectory) f) :
    ∃ D, UserProcess k p ∧ SpaceOf k D ∧ (k.procs p).pageDirectory = kp2v (4096 * D) ∧
      PageFrame k.pmm.mem D f := by
  obtain ⟨va, hva, hu, pa, htr, rfl⟩ := h
  obtain ⟨C, -, hdir, ⟨huser, hC, hptr⟩ | hC⟩ := hi.listed_directory hp
  · rw [hdir] at hu htr
    exact ⟨C, huser, hC, hptr, (hi.kernelHalf hC).reaches hva hu htr⟩
  · rw [hdir, hC, hi.kernel_unreached hva] at hu
    cases hu

theorem UserSpaces.isolated (hi : UserSpaces image first Closed k Held) : Isolated image first k := by
  constructor
  · intro p q hp hq hne f hf hf'
    obtain ⟨D, hproc, hD, hdir, hpage⟩ := hi.reached hp hf
    obtain ⟨D', hproc', hD', hdir', hpage'⟩ := hi.reached hq hf'
    refine hi.pages.unshared D D' hD hD' ?_ f hpage hpage'
    intro he
    rw [he] at hdir
    exact hne (hi.distinct p q hproc hproc' (hdir.trans hdir'.symm))
  · intro p hp f hf
    obtain ⟨D, -, hD, -, hpage⟩ := hi.reached hp hf
    obtain ⟨hown, -⟩ := hi.pages.pages D hD f hpage
    exact ⟨hown.fresh, hown.used⟩
  · intro p hp f hf
    obtain ⟨D, -, hD, -, hpage⟩ := hi.reached hp hf
    obtain ⟨hown, -⟩ := hi.pages.pages D hD f hpage
    refine ⟨hown.not_spaceFrame hi.low, fun hT => ?_⟩
    have hhigh := hown.high hi.low
    have := hT.low
    omega

/-- In every state that a run without a failed allocation reaches, the processes are isolated
from each other and from all that was in use before the first of them. -/
theorem processes_isolated (hb : Boot image k₀ k) (hp : Loaded image k₀.pmm) (hl : image.Linked)
    (hcr3 : k₀.cr3 = image.dirPaddr) (hrun : Run (UserStep image) ⟨k, fun _ => False⟩ es t)
    (hok : t.kernel.pmm.failed = false) : Isolated image k.pmm.framemap t.kernel :=
  ((UserInv.run hb hp hl hcr3 hrun).2 hok).isolated

/-- Above 3 GiB every directory leads where the kernel's own does. -/
theorem UserSpaces.kernel_walk (hi : UserSpaces image first Closed k Held) (hC : DirectoryOf image k C)
    (hva : 0xC0000000 ≤ va) (hva' : va < 4294967296) :
    walk k.pmm.mem (4096 * C) va = walk k.pmm.mem image.dirPaddr va := by
  have hidx : 768 ≤ pageDirIdx va := by
    simp only [pageDirIdx]
    omega
  rw [show image.dirPaddr = 4096 * image.dirFrame from image.kv2p_dir, walk_frames, walk_frames,
    (hi.active hC id).entries _ hidx (pageDirIdx_lt hva')]

/-- In every state that a run without a failed allocation reaches, all processes and the
directory that is loaded have the kernel's half in common, closed to user mode. -/
theorem kernel_half_shared (hb : Boot image k₀ k) (hp : Loaded image k₀.pmm) (hl : image.Linked)
    (hcr3 : k₀.cr3 = image.dirPaddr) (hrun : Run (UserStep image) ⟨k, fun _ => False⟩ es t)
    (hok : t.kernel.pmm.failed = false) (hq : Listed t.kernel q) (hva : 0xC0000000 ≤ va)
    (hva' : va < 4294967296) :
    walk t.kernel.pmm.mem (kv2p (t.kernel.procs q).pageDirectory) va =
        walk t.kernel.pmm.mem t.kernel.cr3 va ∧
      userAccessible t.kernel.pmm.mem (kv2p (t.kernel.procs q).pageDirectory) va = false := by
  have hi := (UserInv.run hb hp hl hcr3 hrun).2 hok
  obtain ⟨C, hC, -, hload⟩ := hi.loaded
  obtain ⟨D, hD, hdir, hcase⟩ := hi.listed_directory hq
  rw [hdir, hload]
  refine ⟨(hi.kernel_walk hD hva hva').trans (hi.kernel_walk hC hva hva').symm, ?_⟩
  rcases hcase with ⟨-, hspace, -⟩ | rfl
  · exact (hi.kernelHalf hspace).userAccessible hva hva' id
  · exact hi.kernel_unreached hva'

/-- What a process sees is kept by every step that spares it, until an allocation fails. -/
theorem UserInv.view_run (hi : UserInv image first t) (hq : UserProcess t.kernel q)
    (hmore : Run (fun t e t' => UserStep image t e t' ∧ Spares q t e) t es t')
    (hok : t'.kernel.pmm.failed = false) : ViewKept t.kernel t'.kernel q := by
  have hrule := hmore.invariant (I := fun u => UserInv image first u ∧
    (u.kernel.pmm.failed = false → ViewKept t.kernel u.kernel q)) ?_ ⟨hi, fun _ => .refl hq⟩
  · exact hrule.2 hok
  · intro u e u' ⟨hi, hview⟩ ⟨hstep, hspare⟩
    refine ⟨hi.step hstep, fun hok' => ?_⟩
    have hok₁ := (hstep.grows hi.1).not_failed hok'
    have hsofar := hview hok₁
    exact hsofar.trans ((hi.2 hok₁).step_view hstep hok' hsofar.process hspare)

/-- Whatever the others do in the course of a run, a process sees what it saw. -/
theorem views_kept (hb : Boot image k₀ k) (hp : Loaded image k₀.pmm) (hl : image.Linked)
    (hcr3 : k₀.cr3 = image.dirPaddr) (hrun : Run (UserStep image) ⟨k, fun _ => False⟩ es t)
    (hq : UserProcess t.kernel q)
    (hmore : Run (fun t e t' => UserStep image t e t' ∧ Spares q t e) t es' t')
    (hok : t'.kernel.pmm.failed = false) : ViewKept t.kernel t'.kernel q :=
  (UserInv.run hb hp hl hcr3 hrun).view_run hq hmore hok

/-! ## A run with two processes -/

/-- Two processes, and no allocation has failed. -/
theorem two_user_processes : ∃ k k₁ k₂, Boot sampleImage pagedKernel k ∧
    UserStep sampleImage ⟨k, fun _ => False⟩ (.create sampleCall 0xC04000A0) ⟨k₁, fun _ => False⟩ ∧
    UserStep sampleImage ⟨k₁, fun _ => False⟩ (.create sampleCall 0xC0402150) ⟨k₂, fun _ => False⟩ ∧
    UserProcess k₁ 0xC04000A0 ∧ k₂.pmm.failed = false := by
  obtain ⟨k, k₁, k₂, h⟩ := two_made
  exact ⟨k, k₁, k₂, h.boot, ⟨sampleCall_userPages, h.first, rfl⟩, ⟨sampleCall_userPages, h.second, rfl⟩,
    ⟨by decide, 1, by decide, by decide, h.slot⟩, h.failed⟩

theorem processes_isolated_two : ∃ k t, Boot sampleImage pagedKernel k ∧
    (∃ es, Run (UserStep sampleImage) ⟨k, fun _ => False⟩ es t) ∧
    Isolated sampleImage k.pmm.framemap t.kernel := by
  obtain ⟨k, k₁, k₂, hboot, hstep, hstep', -, hok⟩ := two_user_processes
  have hrun := (Run.single hstep).snoc hstep'
  exact ⟨k, ⟨k₂, _⟩, hboot, ⟨_, hrun⟩, processes_isolated hboot pagedKernel_loaded
    sampleImage_linked rfl hrun hok⟩

theorem kernel_half_shared_two : ∃ k t, Boot sampleImage pagedKernel k ∧
    (∃ es, Run (UserStep sampleImage) ⟨k, fun _ => False⟩ es t) ∧ Listed t.kernel 0xC04000A0 ∧
    walk t.kernel.pmm.mem (kv2p (t.kernel.procs 0xC04000A0).pageDirectory) 0xC0400000 =
        walk t.kernel.pmm.mem t.kernel.cr3 0xC0400000 ∧
      userAccessible t.kernel.pmm.mem (kv2p (t.kernel.procs 0xC04000A0).pageDirectory) 0xC0400000 =
        false := by
  obtain ⟨k, k₁, k₂, hboot, hstep, hstep', hproc, hok⟩ := two_user_processes
  have hok₁ := (CreateStep.grows hstep'.2.1 ?_).not_failed hok
  · obtain ⟨hne, i, -, hi, hlist⟩ := hproc
    exact ⟨k, ⟨k₁, _⟩, hboot, ⟨_, .single hstep⟩, ⟨hne, i, hi, hlist⟩,
      kernel_half_shared (t := ⟨k₁, fun _ => False⟩) hboot pagedKernel_loaded
        sampleImage_linked rfl (.single hstep) hok₁ ⟨hne, i, hi, hlist⟩
        (by decide) (by decide)⟩
  · exact (UserInv.run hboot pagedKernel_loaded sampleImage_linked rfl
      (.single hstep)).1

theorem views_kept_two : ∃ k k₁ k₂, Boot sampleImage pagedKernel k ∧
    UserStep sampleImage ⟨k₁, fun _ => False⟩ (.create sampleCall 0xC0402150) ⟨k₂, fun _ => False⟩ ∧
    ViewKept k₁ k₂ 0xC04000A0 := by
  obtain ⟨k, k₁, k₂, hboot, hstep, hstep', hproc, hok⟩ := two_user_processes
  have hmore : Run (fun t e t' => UserStep sampleImage t e t' ∧ Spares 0xC04000A0 t e) ⟨k₁, fun _ => False⟩
      [.create sampleCall 0xC0402150] ⟨k₂, fun _ => False⟩ := .single ⟨hstep', trivial⟩
  exact ⟨k, k₁, k₂, hboot, hstep', views_kept hboot pagedKernel_loaded
    sampleImage_linked rfl (.single hstep) hproc hmore hok⟩

end Isolation

end BrownieOS.Process
