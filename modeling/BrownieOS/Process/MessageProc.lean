import BrownieOS.Process.StackRegion
import BrownieOS.Process.UserViews

/-!
# Processes made by `make_user_proc_with_message`

The two frames are taken, filled through temporary mappings and mapped into a new process.
While no allocation fails, all spaces stay apart, nobody else sees any of it, and the new
process finds the program and the message in its pages.
-/
namespace BrownieOS.Process

open BrownieOS.Lib BrownieOS.Lib.Word32 BrownieOS.Mm

/-- User mode reads the byte `c` at the address. -/
def UserReads (m : Mem) (cr3 va : Nat) (c : Byte) : Prop :=
  (userView m cr3 va).map Prod.snd = some c

/-- The process finds the program at `USER_TEST_CODE_VA`, and the message at
`USER_TEST_DATA_VA` with zeros behind it. -/
structure HasMessage (k : Kernel) (r : Nat) (msg : List Byte) : Prop where
  process : UserProcess k r
  code : ∀ x < 4096, UserReads k.pmm.mem (kv2p (k.procs r).pageDirectory) (userTestCodeVa + x)
    ((userProgram msg.length).getD x 0x90)
  data : ∀ x < 4096, UserReads k.pmm.mem (kv2p (k.procs r).pageDirectory) (userTestDataVa + x)
    (msg.getD x 0)

/-- What has been done since `k` keeps the spaces apart, lets user mode into no further frame through
the kernel's tables, and, if no space is opened above 3 GiB, is seen by no process. -/
structure Unseen (image : KernelImage) (first : FrameMap) (Opened : Nat → Prop) (k : Kernel)
    (Held : Nat → Prop) (k' : Kernel) : Prop where
  spaces : UserSpaces image first Opened k' Held
  shown : ∀ {Shown : Nat → Prop}, KernelPages image Shown k.pmm.mem → KernelPages image Shown k'.pmm.mem
  views : Opened = Closed → ∀ q, UserProcess k q → ViewKept k k' q

/-- A call for the message `msg` when no allocation has failed: what it returns, but NULL, is a
new process with the message, ready to start. -/
structure MessageDone (image : KernelImage) (first : FrameMap) (Opened : Nat → Prop) (k : Kernel)
    (Held : Nat → Prop) (msg : List Byte) (k' : Kernel) (r : Nat) : Prop where
  unseen : Unseen image first Opened k Held k'
  cases : ∀ q, UserProcess k' q → q = r ∨ UserProcess k q
  made : r ≠ 0 → ¬ UserProcess k r ∧ (Opened = Closed → HasMessage k' r msg) ∧
    (k'.procs r).procstate = .running ∧ ∃ old, (k'.procs r).context = initialContext old userTestCodeVa

/-- The call of `create_proc`. -/
def messageCall : CreateCall := ⟨userTestCodeVa, 0, pageSize, 0, .normal⟩

/-- Both temporary mappings dropped. -/
def Kernel.kunmapBoth (k : Kernel) (image : KernelImage) (v v' : Nat) : Kernel :=
  (k.kunmap image v).kunmap image v'

/-- What the part from `create_proc` on comes to: no process, a page that is not mapped, or a
process with both. -/
inductive MappedOutcome (image : KernelImage) (k : Kernel) (codePhys dataPhys v v' : Nat) :
    Kernel → Nat → Prop
  | noProc {k₁ : Kernel} : CreateStep image k (messageCall, 0) k₁ →
      MappedOutcome image k codePhys dataPhys v v' (k₁.kunmapBoth image v v') 0
  | noCode {k₁ k₂ : Kernel} {p : Nat} : CreateStep image k (messageCall, p) k₁ → p ≠ 0 →
      procMapPages k₁ p userTestCodeVa codePhys 1 true = some (k₂, false) →
      MappedOutcome image k codePhys dataPhys v v' (k₂.kunmapBoth image v v') 0
  | noData {k₁ k₂ k₃ : Kernel} {p : Nat} : CreateStep image k (messageCall, p) k₁ → p ≠ 0 →
      procMapPages k₁ p userTestCodeVa codePhys 1 true = some (k₂, true) →
      procMapPages k₂ p userTestDataVa dataPhys 1 true = some (k₃, false) →
      MappedOutcome image k codePhys dataPhys v v' (k₃.kunmapBoth image v v') 0
  | done {k₁ k₂ k₃ : Kernel} {p : Nat} : CreateStep image k (messageCall, p) k₁ → p ≠ 0 →
      procMapPages k₁ p userTestCodeVa codePhys 1 true = some (k₂, true) →
      procMapPages k₂ p userTestDataVa dataPhys 1 true = some (k₃, true) →
      MappedOutcome image k codePhys dataPhys v v' (k₃.kunmapBoth image v v') p

section MessageProc

variable {image : KernelImage} {first : FrameMap} {k k₁ k' : Kernel} {s s₁ s₂ s' : Pmm} {m' : Mem}
  {Held Held' Opened : Nat → Prop} {F F' f p q r va v v' base paddr : Nat} {w ok : Bool} {msg : List Byte}

/-! ## The two frames -/

theorem framesOf_one (F f : Nat) : (framesOf (4096 * F) 1).Mem f ↔ f = F := by
  simp only [framesOf, Range.Mem, pageFrame]
  omega

theorem UserSpaces.takeFrame (hi : UserSpaces image first Opened k Held)
    (h : k.pmm.allocPages pmmFlagsHighmem 1 = some (s', base)) : ∃ F, base = 4096 * F ∧ base ≠ 0 ∧
      k.pmm.framemap.test F = false ∧ s' = { k.pmm with framemap := s'.framemap } ∧
      UserSpaces image first Opened { k with pmm := s' } fun f => Held f ∨ f = F := by
  have h0 := hi.spaces.own.kernel.reserved 0 (by decide)
  obtain ⟨hne, -, hnew, heq⟩ := Pmm.allocPages_highmem h0 h
  obtain ⟨F, rfl⟩ : ∃ F, base = 4096 * F := ⟨base / 4096, by have := hnew.aligned; omega⟩
  refine ⟨F, rfl, hne, hnew.free F (by omega) (by omega), heq, (hi.alloc h hne).mono fun f hf => ?_⟩
  rw [framesOf_one]
  exact hf

/-- The frame is mapped, and only the kernel's tables are written. -/
theorem Pmm.kmap_mapped (hk : KernelDirectory s.mem image)
    (hne : (s.kmap image.dir (4096 * F)).2 ≠ 0) :
    MappedAt image (s.kmap image.dir (4096 * F)).1.mem F (s.kmap image.dir (4096 * F)).2 ∧
      ∀ f, ¬ KernelTable image f → s.mem.SameFrame (s.kmap image.dir (4096 * F)).1.mem f :=
  (hk.kmap_mapped hne).symm

/-- `kmap` writes the kernel's tables alone. -/
theorem kmap_frames {m : Mem} (hk : KernelDirectory m image) (paddr : Nat)
    (hf : ¬ KernelTable image f) : m.SameFrame (Mm.kmap image.dir m paddr).1 f := by
  have hresult := kmap_result hk paddr
  generalize Mm.kmap image.dir m paddr = result at hresult
  cases hresult with
  | null => exact .refl m f
  | identity => exact .refl m f
  | slot _ h₀ h₁ hj _ => exact sameFrame_slot (by omega) h₁ hj hf

theorem KernelPages.kmapBoth {Shown : Nat → Prop} (h : KernelPages image Shown s.mem)
    (hk : KernelDirectory s.mem image) (a b : Nat) :
    KernelPages image Shown ((s.kmap image.dir a).1.kmap image.dir b).1.mem :=
  (h.kmap hk a).kmap (hk.of_tables fun _ hf => kmap_frames hk a hf) b

/-- A mapping that fails is recorded, and stays so. -/
theorem Pmm.kmap_failed (h : s.failed = true ∨ (s.kmap image.dir paddr).2 = 0) :
    (s.kmap image.dir paddr).1.failed = true := by
  show (s.failed || (s.kmap image.dir paddr).2 == 0) = true
  rcases h with h | h
  · rw [h]
    rfl
  · rw [h]
    exact Bool.or_true _

/-- Both frames mapped, one after the other. -/
theorem UserSpaces.mapFrames (hi : UserSpaces image first Opened k Held) (hmem : s.mem = k.pmm.mem)
    (hne : (s.kmap image.dir (4096 * F)).2 ≠ 0)
    (hne' : ((s.kmap image.dir (4096 * F)).1.kmap image.dir (4096 * F')).2 ≠ 0) :
    TwoMapped image k.pmm F F' (s.kmap image.dir (4096 * F)).2
      ((s.kmap image.dir (4096 * F)).1.kmap image.dir (4096 * F')).2
      ((s.kmap image.dir (4096 * F)).1.kmap image.dir (4096 * F')).1.mem := by
  have hk : KernelDirectory s.mem image := by
    rw [hmem]
    exact hi.spaces.own.kernel.directory
  obtain ⟨hmapped, hsame⟩ := Pmm.kmap_mapped hk hne
  have hk' := hk.of_tables hsame
  obtain ⟨hmapped', hsame'⟩ := Pmm.kmap_mapped hk' hne'
  refine ⟨hmapped.kmap hk' _, hmapped', fun f _ _ hf => ?_⟩
  rw [← hmem]
  exact (hsame f hf).trans (hsame' f hf)

/-- The two pages are filled in frames that are held from then on. -/
structure PagesFilled (image : KernelImage) (first : FrameMap) (Opened : Nat → Prop) (k : Kernel)
    (Held : Nat → Prop) (F F' v v' : Nat) (msg : List Byte) (s' : Pmm) : Prop where
  spaces : UserSpaces image first Opened { k with pmm := s' } fun f => (Held f ∨ f = F) ∨ f = F'
  mapped : TwoMapped image k.pmm F F' v v' s'.mem
  text : UserText s'.mem F F' msg
  apart : F ≠ F'
  fresh : ∀ f, Held f → f ≠ F ∧ f ≠ F'
  shown : ∀ {Shown : Nat → Prop}, KernelPages image Shown k.pmm.mem → KernelPages image Shown s'.mem
  views : Opened = Closed → ∀ q, UserProcess k q → ViewKept k { k with pmm := s' } q

theorem UserSpaces.fillPages {a b : Nat} (hi : UserSpaces image first Opened k Held)
    (hcode : k.pmm.allocPages pmmFlagsHighmem 1 = some (s₁, a))
    (hdata : s₁.allocPages pmmFlagsHighmem 1 = some (s₂, b)) (hmsg : msg.length < 4096)
    (hne : (s₂.kmap image.dir a).2 ≠ 0) (hne' : ((s₂.kmap image.dir a).1.kmap image.dir b).2 ≠ 0) :
    ∃ F F' m, a = 4096 * F ∧ b = 4096 * F' ∧
      writeUserPages k.cr3 (s₂.kmap image.dir a).2 ((s₂.kmap image.dir a).1.kmap image.dir b).2 msg
        ((s₂.kmap image.dir a).1.kmap image.dir b).1.mem = some m ∧
      PagesFilled image first Opened k Held F F' (s₂.kmap image.dir a).2
        ((s₂.kmap image.dir a).1.kmap image.dir b).2 msg
        { ((s₂.kmap image.dir a).1.kmap image.dir b).1 with mem := m } := by
  obtain ⟨C, hC, hclosed, hcr3⟩ := hi.loaded
  obtain ⟨F, rfl, hne₁, hfree, heq, hi₁⟩ := hi.takeFrame hcode
  obtain ⟨F', rfl, hne₂, hfree', heq', hi₂⟩ := hi₁.takeFrame hdata
  have hmem₁ : s₁.mem = k.pmm.mem := by rw [heq]
  have hmem₂ : s₂.mem = k.pmm.mem := by rw [heq', ← hmem₁]
  have htwo := hi.mapFrames hmem₂ hne hne'
  have hplain : ∀ {f}, f = F ∨ f = F' → PlainFrame C f := by
    intro f hf
    have hheld : (Held f ∨ f = F) ∨ f = F' := by tauto
    exact (hi₂.pages.held f hheld).plain hi₂.low hC
  have hused : s₁.framemap.test F = true := (hi₁.pages.held F (Or.inr rfl)).used
  have hapart : F ≠ F' := by
    rintro rfl
    rw [show s₁.framemap.test F = false from hfree'] at hused
    cases hused
  have hfresh : ∀ f, Held f → f ≠ F ∧ f ≠ F' := by
    intro f hf
    constructor
    · intro he
      rw [← he, (hi.pages.held f hf).used] at hfree
      cases hfree
    · intro he
      have htaken : s₁.framemap.test f = true := (hi₁.pages.held f (Or.inl hf)).used
      rw [he, show s₁.framemap.test F' = false from hfree'] at htaken
      cases htaken
  obtain ⟨m', hwrite, htwo', htext, hkept⟩ := htwo.writeUserPages (hi.active hC hclosed) (hplain (Or.inl rfl))
    (hplain (Or.inr rfl)) hapart hmsg
  have hsame : ∀ f, f ≠ F → f ≠ F' → ¬ KernelTable image f → s₂.mem.SameFrame m' f := by
    rw [hmem₂]
    exact htwo'.others
  have hspaces : UserSpaces image first Opened
      { k with pmm := { ((s₂.kmap image.dir (4096 * F)).1.kmap image.dir (4096 * F')).1 with mem := m' } }
      fun f => (Held f ∨ f = F) ∨ f = F' := by
    refine hi₂.kept (fun _ hf => hf) fun f hf => hsame f ?_ ?_ fun hT => hi₂.kernelTable hT hf
    · intro he
      rw [he] at hf
      exact hi₂.held_frame (Or.inl (Or.inr rfl)) hf
    · intro he
      rw [he] at hf
      exact hi₂.held_frame (Or.inr rfl) hf
  refine ⟨F, F', m', rfl, rfl, by rw [hcr3]; exact hwrite, hspaces, htwo', htext, hapart, hfresh,
    fun hshown => ?_, fun hnone q hq => ?_⟩
  · rw [← hmem₂] at hshown
    refine (hshown.kmapBoth (by rw [hmem₂]; exact hi.spaces.own.kernel.directory) (4096 * F) (4096 * F')).of_sameFrame
      fun f hT => ?_
    have hlow := hT.low
    have hhigh := (hplain (Or.inl rfl)).high
    have hhigh' := (hplain (Or.inr rfl)).high
    exact hkept f (by omega) (by omega)
  subst hnone
  have hview₁ := hi.alloc_view hcode hne₁ hq
  have hview₂ := hi₁.alloc_view hdata hne₂ hview₁.process
  refine (hview₁.trans hview₂).trans (hi₂.unseen hspaces (fun f hT hheld => ?_) hview₂.process)
  exact hsame f (fun he => hheld (Or.inl (Or.inr he))) (fun he => hheld (Or.inr he)) hT

/-! ## The process -/

/-- A mapped page is read from its frame. -/
theorem UserMapping.reads {m : Mem} {cr3 x : Nat} (h : UserMapping m cr3 va (4096 * F) w)
    (hva : va % 4096 = 0) (hx : x < 4096) : UserReads m cr3 (va + x) (m (4096 * F + x)) := by
  have hwalk : walk m cr3 (va + x) = walk m cr3 va := by
    rw [walk_page m cr3 (va + x), show (va + x) / 4096 * 4096 = va by omega]
  have hoff : (va + x) % 4096 = x := by omega
  have huser := h.user
  obtain ⟨found, hfound, hframe⟩ := Option.map_eq_some_iff.1 h.translates
  have hbase : framePaddr found.2.frame = 4096 * F := by omega
  rw [userAccessible, hfound, Option.any_some] at huser
  unfold UserReads
  rw [userView, userAccessible, hwalk, hfound, hoff, Option.any_some, if_pos huser, Option.map_some,
    Option.map_some, hbase]

theorem HasMessage.kept (h : HasMessage k r msg) (hv : ViewKept k k' r) : HasMessage k' r msg := by
  refine ⟨hv.process, fun x hx => ?_, fun x hx => ?_⟩
  · unfold UserReads
    rw [hv.view _ (by simp only [userTestCodeVa]; omega)]
    exact h.code x hx
  · unfold UserReads
    rw [hv.view _ (by simp only [userTestDataVa]; omega)]
    exact h.data x hx

theorem UserSpaces.kmap (hi : UserSpaces image first Opened k Held) (paddr : Nat) :
    UserSpaces image first Opened { k with pmm := (k.pmm.kmap image.dir paddr).1 } Held :=
  hi.tables (fun _ hf => kmap_frames hi.spaces.own.kernel.directory paddr hf) fun _ hf => hf

theorem UserSpaces.kunmap (hi : UserSpaces image first Opened k Held) (hv : 0xC0000000 ≤ v)
    (hv' : v < 4294967296) : UserSpaces image first Opened (k.kunmap image v) Held :=
  hi.tables (fun _ hf => kunmap_frames hi.spaces.own.kernel.directory hv hv' hf) fun _ hf => hf

theorem UserSpaces.kunmap_view (hi : UserSpaces image first Closed k Held) (hv : 0xC0000000 ≤ v)
    (hv' : v < 4294967296) (hq : UserProcess k q) : ViewKept k (k.kunmap image v) q :=
  hi.unseen (hi.kunmap hv hv')
    (fun _ hf _ => kunmap_frames hi.spaces.own.kernel.directory hv hv' hf) hq

theorem Unseen.kunmapBoth {m m₁ : Mem} (hu : Unseen image first Opened k Held k') (h : MappedAt image m F v)
    (h' : MappedAt image m₁ F' v') : Unseen image first Opened k Held (k'.kunmapBoth image v v') := by
  obtain ⟨h₁, h₂⟩ := h.range
  obtain ⟨h₁', h₂'⟩ := h'.range
  have hi := hu.spaces.kunmap h₁ h₂
  refine ⟨hi.kunmap h₁' h₂', fun hshown => ?_, fun hnone q hq => ?_⟩
  · exact ((hu.shown hshown).kunmap hu.spaces.spaces.own.kernel.directory h₁ h₂).kunmap
      hi.spaces.own.kernel.directory h₁' h₂'
  subst hnone
  have hview := hu.views rfl q hq
  have hview' := hview.trans (hu.spaces.kunmap_view h₁ h₂ hview.process)
  exact hview'.trans (hi.kunmap_view h₁' h₂' hview'.process)

/-- A frame for pages keeps its bytes when pages are mapped. -/
theorem UserSpaces.map_page_same {virt phys pages : Nat} (hi : UserSpaces image first Opened k Held)
    (hp : UserProcess k p) (huser : UserPages virt pages)
    (h : procMapPages k p virt phys pages w = some (k', ok))
    (hf : UserFrame first k.pmm (SpaceOf k) f) : k.pmm.mem.SameFrame k'.pmm.mem f :=
  hi.map_same hp huser h hf.used fun D hD _ =>
    ⟨(hf.directory D hD).1, (hf.directory D hD).2, hf.table D hD⟩

/-- So does a table of the kernel's. -/
theorem UserSpaces.map_table_same {virt phys pages : Nat} (hi : UserSpaces image first Opened k Held)
    (hp : UserProcess k p) (huser : UserPages virt pages)
    (h : procMapPages k p virt phys pages w = some (k', ok)) (hT : KernelTable image f) :
    k.pmm.mem.SameFrame k'.pmm.mem f := by
  have hnot := hi.kernelTable hT
  refine hi.map_same hp huser h (hi.spaces.own.kernel.reserved f hT.low) fun D hD _ => ⟨?_, ?_, fun hown => ?_⟩
  · exact fun he => hnot (Or.inl ⟨D, Or.inr hD, Or.inl he⟩)
  · exact fun he => hnot (Or.inl ⟨D, Or.inr hD, Or.inr he⟩)
  · exact hnot (Or.inr ⟨D, hD, hown⟩)

theorem procMapPages_grows {virt phys pages : Nat} (h0 : k.pmm.framemap.test 0 = true)
    (h : procMapPages k p virt phys pages w = some (k', ok)) : k.pmm.Grows k'.pmm := by
  rcases procMapPages_cases h with ⟨-, rfl, -⟩ | ⟨s', hloop, rfl⟩
  · exact .refl _
  · exact procMapLoop_grows h0 hloop

theorem messageCall_userPages :
    UserPages (stackBottomAl messageCall.stackSize) (stackPages messageCall.stackSize) := by
  unfold UserPages
  decide

theorem messagePage_userPages (hva : va < 0xC0000000 - 4096) (hpage : va % 4096 = 0) : UserPages va 1 := by
  intro i hi
  simp only [pageVirt, wadd, wmul, pageSize]
  omega

theorem userTestCode_userPages : UserPages userTestCodeVa 1 :=
  messagePage_userPages (by decide) (by decide)

theorem userTestData_userPages : UserPages userTestDataVa 1 :=
  messagePage_userPages (by decide) (by decide)

/-- Mapping pages touches neither the table nor a record, nor the heap. -/
theorem procMapPages_kept {virt phys pages : Nat} (h : procMapPages k p virt phys pages w = some (k', ok)) :
    k'.procs = k.procs ∧ k'.procList = k.procList ∧ k'.cr3 = k.cr3 ∧ k'.heap = k.heap := by
  rcases procMapPages_cases h with ⟨-, rfl, -⟩ | ⟨s', -, rfl⟩
  · exact ⟨rfl, rfl, rfl, rfl⟩
  · exact ⟨rfl, rfl, rfl, rfl⟩

theorem userProcess_mapped {virt phys pages : Nat}
    (h : procMapPages k p virt phys pages w = some (k', ok)) (hq : UserProcess k q) : UserProcess k' q := by
  unfold UserProcess
  rw [(procMapPages_kept h).2.1]
  exact hq

/-- What is left of the frames once both are mapped. -/
theorem left_held (hnot : ∀ f, Held f → f ≠ F ∧ f ≠ F') (f : Nat) (hf : Held f) :
    (((Held f ∨ f = F) ∨ f = F') ∧ ¬ (framesOf (4096 * F) 1).Mem f) ∧
      ¬ (framesOf (4096 * F') 1).Mem f := by
  obtain ⟨h₁, h₂⟩ := hnot f hf
  rw [framesOf_one, framesOf_one]
  exact ⟨⟨Or.inl (Or.inl hf), h₁⟩, h₂⟩

/-- Both pages are in the new process. -/
theorem UserSpaces.mapBoth {k₂ : Kernel} {text : List Byte}
    (hi : UserSpaces image first Opened k fun f => (Held f ∨ f = F) ∨ f = F')
    (hr : UserProcess k r) (hne : F ≠ F') (htext : UserText k.pmm.mem F F' text)
    (hcode : procMapPages k r userTestCodeVa (4096 * F) 1 true = some (k₁, true))
    (hdata : procMapPages k₁ r userTestDataVa (4096 * F') 1 true = some (k₂, true)) :
    HasMessage k₂ r text := by
  have huser := userTestCode_userPages
  have huser' := userTestData_userPages
  obtain ⟨D, s₁, hD, hdir, rfl, -, -⟩ := hi.spaces.mapPages hr huser hcode
  have hi₁ := hi.mapPages hr huser (fun f hf => by
    rw [framesOf_one] at hf
    exact Or.inl (Or.inr hf)) hcode
  obtain ⟨-, s₂, -, -, rfl, -, -⟩ := hi₁.spaces.mapPages hr huser' hdata
  have hF := hi.pages.held F (Or.inl (Or.inr rfl))
  have hF' := hi.pages.held F' (Or.inr rfl)
  have hF₁' : UserFrame first s₁ (SpaceOf k) F' := hi₁.pages.held F' ⟨Or.inr rfl, by
    rw [framesOf_one]
    exact hne.symm⟩
  have hlow := hD.1
  have hin := hF.inside
  have hin' := hF'.inside
  simp only [nFrames] at hin hin'
  obtain ⟨hmaps, -⟩ := procMapLoop_exact (D := D) (by rw [hdir]; exact hi.spaces.own.directory D hD)
    (by decide) (by omega) (by decide) (by omega) (procMapPages_loop hcode).1
  obtain ⟨hmaps', -⟩ := procMapLoop_exact (D := D)
    (by dsimp only; rw [hdir]; exact hi₁.spaces.own.directory D hD)
    (by decide) (by omega) (by decide) (by omega) (procMapPages_loop hdata).1
  have hcodeAt := hmaps.mapped 0 (by decide)
  have hdataAt := hmaps'.mapped 0 (by decide)
  simp only [Nat.mul_zero, Nat.add_zero] at hcodeAt hdataAt
  have hpage : PageFrame s₁.mem D F := by
    obtain ⟨found, hfound, hframe⟩ := Option.map_eq_some_iff.1 hcodeAt.translates
    obtain ⟨-, hpage⟩ := walk_pageFrame hfound (by decide)
    simp only [framePaddr] at hframe
    rwa [show found.2.frame.toNat = F by omega] at hpage
  have hF₁ := (hi₁.pages.pages D hD F hpage).1
  have hcodeAt' := hmaps'.kept userTestCodeVa (by decide) (by decide) _ _ hcodeAt
  have hsame : k.pmm.mem.SameFrame s₂.mem F :=
    (hi.map_page_same hr huser hcode hF).trans (hi₁.map_page_same hr huser' hdata hF₁)
  have hsame' : k.pmm.mem.SameFrame s₂.mem F' :=
    (hi.map_page_same hr huser hcode hF').trans (hi₁.map_page_same hr huser' hdata hF₁')
  refine ⟨hr, fun x hx => ?_, fun x hx => ?_⟩
  · rw [← htext.code x hx, ← hsame _ (by omega)]
    dsimp only
    rw [hdir, kv2p_kp2v_frame (by omega)]
    exact hcodeAt'.reads (by decide) hx
  · rw [← htext.data x hx, ← hsame' _ (by omega)]
    dsimp only
    rw [hdir, kv2p_kp2v_frame (by omega)]
    exact hdataAt.reads (by decide) hx

theorem makeUserProcMapped_cases {a b : Nat} (h : makeUserProcMapped image k a b v v' = some (k', r)) :
    MappedOutcome image k a b v v' k' r := by
  unfold makeUserProcMapped at h
  obtain ⟨⟨k₁, p⟩, hcreate, h⟩ := Option.bind_eq_some_iff.1 h
  have hstep : CreateStep image k (messageCall, p) k₁ := hcreate
  dsimp only at h
  split at h
  · rename_i hz
    obtain ⟨rfl, rfl⟩ := Prod.mk.inj (Option.some.inj h)
    rw [hz] at hstep
    exact .noProc hstep
  · rename_i hp
    obtain ⟨⟨k₂, ok⟩, hcode, h⟩ := Option.bind_eq_some_iff.1 h
    cases ok with
    | false =>
      obtain ⟨rfl, rfl⟩ := Prod.mk.inj (Option.some.inj h)
      exact .noCode hstep hp hcode
    | true =>
      obtain ⟨⟨k₃, ok'⟩, hdata, h⟩ := Option.bind_eq_some_iff.1 h
      cases ok' with
      | false =>
        obtain ⟨rfl, rfl⟩ := Prod.mk.inj (Option.some.inj h)
        exact .noData hstep hp hcode hdata
      | true =>
        obtain ⟨rfl, rfl⟩ := Prod.mk.inj (Option.some.inj h)
        exact .done hstep hp hcode hdata

/-- Frames that are held are mapped into a process that `k` did not have. -/
theorem Unseen.map {virt phys pages : Nat} (hu : Unseen image first Opened k Held k₁)
    (hp : UserProcess k₁ p) (hnew : ¬ UserProcess k p) (huser : UserPages virt pages)
    (hheld : ∀ f, (framesOf phys pages).Mem f → Held f)
    (h : procMapPages k₁ p virt phys pages w = some (k', ok)) :
    Unseen image first Opened k (fun f => Held f ∧ ¬ (framesOf phys pages).Mem f) k' := by
  refine ⟨hu.spaces.mapPages hp huser hheld h, fun hshown => ?_, fun hnone q hq => ?_⟩
  · exact (hu.shown hshown).of_sameFrame fun f hT => hu.spaces.map_table_same hp huser h hT
  subst hnone
  have hview := hu.views rfl q hq
  refine hview.trans (hu.spaces.map_view hp huser hheld h hview.process ?_)
  intro he
  rw [he] at hnew
  exact hnew hq

theorem Unseen.mono (hu : Unseen image first Opened k Held k') (h : ∀ f, Held' f → Held f) :
    Unseen image first Opened k Held' k' := ⟨hu.spaces.mono h, hu.shown, hu.views⟩

theorem Unseen.refl (hi : UserSpaces image first Opened k Held) : Unseen image first Opened k Held k :=
  ⟨hi, id, fun _ _ hq => .refl hq⟩

theorem UserText.of_sameFrame {m : Mem} (h : UserText m F F' msg) (hF : m.SameFrame m' F)
    (hF' : m.SameFrame m' F') : UserText m' F F' msg := by
  refine ⟨fun x hx => ?_, fun x hx => ?_⟩
  · rw [hF _ (by omega)]
    exact h.code x hx
  · rw [hF' _ (by omega)]
    exact h.data x hx

theorem UserSpaces.create_unseen {c : CreateCall} (hi : UserSpaces image first Opened k Held)
    (huser : UserPages (stackBottomAl c.stackSize) (stackPages c.stackSize))
    (h : CreateStep image k (c, r) k') (hok : k'.pmm.failed = false) : Unseen image first Opened k Held k' :=
  by
  refine ⟨hi.create huser h hok, fun hshown => ?_, fun hnone q hq => ?_⟩
  · rcases hi.created h hok with ⟨-, rfl⟩ | ⟨-, D, stackPhys, -, hspace⟩
    · exact hshown
    · exact hshown.of_sameFrame fun f hT =>
        hspace.mem f (hi.spaces.own.kernel.reserved f hT.low) fun _ => huser
  · subst hnone
    exact hi.create_view huser h hok hq

/-- The part from `create_proc` on. -/
theorem UserSpaces.mapMessage (hi : UserSpaces image first Opened k fun f => (Held f ∨ f = F) ∨ f = F')
    (hm : TwoMapped image s F F' v v' m') (htext : UserText k.pmm.mem F F' msg) (hne : F ≠ F')
    (hnot : ∀ f, Held f → f ≠ F ∧ f ≠ F')
    (h : MappedOutcome image k (4096 * F) (4096 * F') v v' k' r) (hok : k'.pmm.failed = false) :
    MessageDone image first Opened k Held msg k' r := by
  have hcode : ∀ f, (framesOf (4096 * F) 1).Mem f → (Held f ∨ f = F) ∨ f = F' := by
    intro f hf
    rw [framesOf_one] at hf
    exact Or.inl (Or.inr hf)
  have hdata : ∀ f, (framesOf (4096 * F') 1).Mem f →
      ((Held f ∨ f = F) ∨ f = F') ∧ ¬ (framesOf (4096 * F) 1).Mem f := by
    intro f hf
    rw [framesOf_one] at hf ⊢
    exact ⟨Or.inr hf, by rw [hf]; exact hne.symm⟩
  have hreserved : ∀ {k₁ p}, CreateStep image k (messageCall, p) k₁ →
      k₁.pmm.framemap.test 0 = true := fun hcreate =>
    (hi.spaces.create messageCall_userPages hcreate).own.kernel.reserved 0 (by decide)
  have hmade : ∀ {k₁ p}, CreateStep image k (messageCall, p) k₁ → p ≠ 0 → k₁.pmm.failed = false →
      ∃ D, ProcessMade k k₁ userTestCodeVa p D ∧
        ∀ f, k.pmm.framemap.test f = true → k.pmm.mem.SameFrame k₁.pmm.mem f := by
    intro k₁ p hcreate hp hok₁
    rcases hi.created hcreate hok₁ with ⟨hz, -⟩ | ⟨-, D, stackPhys, hmade, hspace⟩
    · exact absurd hz hp
    · exact ⟨D, hmade, fun f hf => hspace.mem f hf fun _ => messageCall_userPages⟩
  cases h with
  | noProc hcreate =>
    rcases hi.created hcreate hok with ⟨-, rfl⟩ | ⟨hr, -⟩
    · have hu := (Unseen.refl hi).mono fun f (hf : Held f) => Or.inl (Or.inl hf)
      exact ⟨hu.kunmapBoth hm.first hm.second, fun q hq => Or.inr hq, fun hr => absurd rfl hr⟩
    · exact absurd rfl hr
  | noCode hcreate hp hmap =>
    have hok₁ := (procMapPages_grows (hreserved hcreate) hmap).not_failed hok
    obtain ⟨D, hnew, hsame⟩ := hmade hcreate hp hok₁
    have hfailed := (hi.create messageCall_userPages hcreate hok₁).mapPages_failed hnew.made
      userTestCode_userPages (by decide) hmap
    exact absurd (hfailed.symm.trans hok) (by decide)
  | noData hcreate hp hmap hmap' =>
    have hg := procMapPages_grows (hreserved hcreate) hmap
    have hok₂ := (procMapPages_grows (hg.used 0 (hreserved hcreate)) hmap').not_failed hok
    obtain ⟨D, hnew, hsame⟩ := hmade hcreate hp (hg.not_failed hok₂)
    have hu₂ := (hi.create_unseen messageCall_userPages hcreate (hg.not_failed hok₂)).map hnew.made
      hnew.fresh userTestCode_userPages hcode hmap
    have hfailed := hu₂.spaces.mapPages_failed (userProcess_mapped hmap hnew.made)
      userTestData_userPages (by decide) hmap'
    exact absurd (hfailed.symm.trans hok) (by decide)
  | @done k₁ k₂ k₃ p hcreate hp hmap hmap' =>
    have hg := procMapPages_grows (hreserved hcreate) hmap
    have hok₂ := (procMapPages_grows (hg.used 0 (hreserved hcreate)) hmap').not_failed hok
    obtain ⟨D, hnew, hsame⟩ := hmade hcreate hp (hg.not_failed hok₂)
    have hu₁ := hi.create_unseen messageCall_userPages hcreate (hg.not_failed hok₂)
    have hu₂ := hu₁.map hnew.made hnew.fresh userTestCode_userPages hcode hmap
    have hu₃ := hu₂.map (userProcess_mapped hmap hnew.made) hnew.fresh userTestData_userPages hdata hmap'
    have hrecords : (k₃.kunmapBoth image v v').procs = k₁.procs :=
      (procMapPages_kept hmap').1.trans (procMapPages_kept hmap).1
    have hused : ∀ f, (Held f ∨ f = F) ∨ f = F' → k.pmm.mem.SameFrame k₁.pmm.mem f :=
      fun f hf => hsame f (hi.pages.held f hf).used
    have hhas := hu₁.spaces.mapBoth hnew.made hne
      (htext.of_sameFrame (hused F (Or.inl (Or.inr rfl))) (hused F' (Or.inr rfl))) hmap hmap'
    have hlast := (Unseen.refl hu₃.spaces).kunmapBoth hm.first hm.second
    have hlist : (k₃.kunmapBoth image v v').procList = k₁.procList :=
      (procMapPages_kept hmap').2.1.trans (procMapPages_kept hmap).2.1
    refine ⟨(hu₃.mono (left_held hnot)).kunmapBoth hm.first hm.second, fun q hq => hnew.cases q ?_,
      fun _ => ⟨hnew.fresh, fun hnone => ?_, ?_, ?_⟩⟩
    · unfold UserProcess at hq ⊢
      rw [hlist] at hq
      exact hq
    · exact hhas.kept (hlast.views hnone _ hhas.process)
    · rw [hrecords]
      exact hnew.running
    · rw [hrecords]
      exact hnew.context

theorem MessageDone.after (h : MessageDone image first Opened { k with pmm := s } Held msg k' r)
    (hshown : ∀ {Shown : Nat → Prop}, KernelPages image Shown k.pmm.mem → KernelPages image Shown s.mem)
    (hviews : Opened = Closed → ∀ q, UserProcess k q → ViewKept k { k with pmm := s } q) :
    MessageDone image first Opened k Held msg k' r :=
  ⟨⟨h.unseen.spaces, fun hs => h.unseen.shown (hshown hs), fun hnone q hq =>
    (hviews hnone q hq).trans (h.unseen.views hnone q (hviews hnone q hq).process)⟩, h.cases, h.made⟩

/-- A call of `make_user_proc_with_message` for a message that fits in a page. -/
theorem UserSpaces.message (hi : UserSpaces image first Opened k Held) (hmsg : msg.length < 4096)
    (h : makeUserProcWithMessage image k (some msg) = some (k', r)) (hok : k'.pmm.failed = false) :
    MessageDone image first Opened k Held msg k' r := by
  unfold makeUserProcWithMessage at h
  obtain ⟨⟨s₁, a⟩, hcode, h⟩ := Option.bind_eq_some_iff.1 h
  obtain ⟨⟨s₂, b⟩, hdata, h⟩ := Option.bind_eq_some_iff.1 h
  dsimp only at hcode hdata h
  obtain ⟨F, hF, hne, -, -, hi₁⟩ := hi.takeFrame hcode
  obtain ⟨F', hF', hne', -⟩ := hi₁.takeFrame hdata
  rw [if_neg (not_or.2 ⟨hne, hne'⟩)] at h
  split at h
  · rename_i hz
    obtain ⟨rfl, -⟩ := Prod.mk.inj (Option.some.inj h)
    have hfailed : ((s₂.kmap image.dir a).1.kmap image.dir b).1.failed = true :=
      Pmm.kmap_failed (hz.imp_left fun hz => Pmm.kmap_failed (Or.inr hz))
    -- dropping what was mapped does not take it back
    split at hok
    · split at hok
      · exact absurd (hfailed.symm.trans hok) (by decide)
      · exact absurd (hfailed.symm.trans hok) (by decide)
    · split at hok
      · exact absurd (hfailed.symm.trans hok) (by decide)
      · exact absurd (hfailed.symm.trans hok) (by decide)
  · rename_i hz
    obtain ⟨hv, hv'⟩ := not_or.1 hz
    obtain ⟨F, F', m, rfl, rfl, hwrite, hfilled⟩ := hi.fillPages hcode hdata hmsg hv hv'
    rw [hwrite, Option.bind_eq_bind, Option.bind_some] at h
    exact (hfilled.spaces.mapMessage hfilled.mapped hfilled.text hfilled.apart hfilled.fresh
      (makeUserProcMapped_cases h) hok).after hfilled.shown hfilled.views

theorem MappedOutcome.grows {a b : Nat} (h : MappedOutcome image k a b v v' k' r)
    (h0 : k.pmm.framemap.test 0 = true) : k.pmm.Grows k'.pmm := by
  have hnext : ∀ {k₁ k₂ p va paddr ok}, k.pmm.Grows k₁.pmm →
      procMapPages k₁ p va paddr 1 true = some (k₂, ok) → k.pmm.Grows k₂.pmm :=
    fun hg hmap => hg.trans (procMapPages_grows (hg.used 0 h0) hmap)
  cases h with
  | noProc hcreate =>
    have hg := hcreate.grows h0
    exact ⟨hg.used, hg.failed⟩
  | noCode hcreate _ hmap =>
    have hg := hnext (hcreate.grows h0) hmap
    exact ⟨hg.used, hg.failed⟩
  | noData hcreate _ hmap hmap' =>
    have hg := hnext (hnext (hcreate.grows h0) hmap) hmap'
    exact ⟨hg.used, hg.failed⟩
  | done hcreate _ hmap hmap' =>
    have hg := hnext (hnext (hcreate.grows h0) hmap) hmap'
    exact ⟨hg.used, hg.failed⟩

theorem makeUserProcWithMessage_grows (h0 : k.pmm.framemap.test 0 = true)
    (h : makeUserProcWithMessage image k (some msg) = some (k', r)) : k.pmm.Grows k'.pmm := by
  unfold makeUserProcWithMessage at h
  obtain ⟨⟨s₁, a⟩, hcode, h⟩ := Option.bind_eq_some_iff.1 h
  obtain ⟨⟨s₂, b⟩, hdata, h⟩ := Option.bind_eq_some_iff.1 h
  dsimp only at hcode hdata h
  have hg₁ := Pmm.allocPages_grows h0 hcode
  have hg₂ := hg₁.trans (Pmm.allocPages_grows (hg₁.used 0 h0) hdata)
  have hg := (hg₂.trans (Pmm.kmap_grows _ image.dir a)).trans (Pmm.kmap_grows _ image.dir b)
  split at h
  · obtain ⟨rfl, -⟩ := Prod.mk.inj (Option.some.inj h)
    exact hg₂
  · split at h
    · obtain ⟨rfl, -⟩ := Prod.mk.inj (Option.some.inj h)
      split
      · split
        · exact ⟨hg.used, hg.failed⟩
        · exact ⟨hg.used, hg.failed⟩
      · split
        · exact ⟨hg.used, hg.failed⟩
        · exact ⟨hg.used, hg.failed⟩
    · obtain ⟨m, -, h⟩ := Option.bind_eq_some_iff.1 h
      have hg' := (makeUserProcMapped_cases h).grows (hg.used 0 h0)
      exact ⟨fun f hf => hg'.used f (hg.used f hf), fun hf => hg'.failed (hg.failed hf)⟩

end MessageProc

end BrownieOS.Process
