import BrownieOS.Process.UserSpaces

/-!
# What user mode sees through a directory

The frames that user mode reaches are the directory's pages, and what it finds is decided by
the directory, its tables and its pages alone. So a step that leaves those of a process as they
are leaves all that the process sees.
-/
namespace BrownieOS.Process

open BrownieOS.Lib BrownieOS.Lib.Word32 BrownieOS.Mm

/-- User mode reaches frame `f` at some address. -/
def ReachesFrame (m : Mem) (cr3 f : Nat) : Prop :=
  ∃ va < 4294967296, userAccessible m cr3 va = true ∧ ∃ pa, Mm.translate m cr3 va = some pa ∧ pa / 4096 = f

/-- What user mode finds at an address: the entries of its page, and the byte. -/
def userView (m : Mem) (cr3 va : Nat) : Option ((PageDirEntry × Page) × Byte) :=
  if userAccessible m cr3 va then
    (walk m cr3 va).map fun found => (found, m (framePaddr found.2.frame + va % 4096))
  else none

/-- The frames of an address space: the directory, the kernel's pointers to its tables, the
tables and the pages. -/
inductive ViewFrame (m : Mem) (D : Nat) : Nat → Prop
  | directory : ViewFrame m D D
  | pointers : ViewFrame m D (D + 1)
  | table {T : Nat} : UserTable m D T → ViewFrame m D T
  | page {f : Nat} : PageFrame m D f → ViewFrame m D f

/-- The process is listed still, its record and all it sees as they were. -/
structure ViewKept (k k' : Kernel) (q : Nat) : Prop where
  process : UserProcess k' q
  record : k'.procs q = k.procs q
  view : ∀ va < 4294967296, userView k'.pmm.mem (kv2p (k'.procs q).pageDirectory) va =
    userView k.pmm.mem (kv2p (k.procs q).pageDirectory) va

section UserViews

variable {image : KernelImage} {first : FrameMap} {k k' k'' : Kernel} {s' : Pmm} {m m' : Mem}
  {Held Held' Opened : Nat → Prop} {C D D' f g p q va pa virt phys pages base count : Nat} {flags : PmmFlags}
  {w ok : Bool} {found : PageDirEntry × Page}

theorem ViewKept.refl (hq : UserProcess k q) : ViewKept k k q := ⟨hq, rfl, fun _ _ => rfl⟩

theorem ViewKept.trans (h : ViewKept k k' q) (h' : ViewKept k' k'' q) : ViewKept k k'' q :=
  ⟨h'.process, h'.record.trans h.record, fun va hva => (h'.view va hva).trans (h.view va hva)⟩

theorem ViewKept.of_eq (hq : UserProcess k q) (hlist : k'.procList = k.procList)
    (hprocs : k'.procs = k.procs) (hmem : k'.pmm.mem = k.pmm.mem) : ViewKept k k' q := by
  refine ⟨?_, by rw [hprocs], fun va _ => by rw [hprocs, hmem]⟩
  unfold UserProcess
  rw [hlist]
  exact hq

/-- Below 3 GiB the walk finds a page of the directory. -/
theorem walk_pageFrame (hwalk : walk m (4096 * D) va = some found) (huser : pageDirIdx va < 768) :
    UserTable m D found.1.frame.toNat ∧ PageFrame m D found.2.frame.toNat := by
  rw [walk_frames] at hwalk
  split at hwalk
  · rename_i hp
    split at hwalk
    · rename_i hpage
      cases hwalk
      exact ⟨⟨_, huser, hp, rfl⟩, _, ⟨_, huser, hp, rfl⟩, _, pageTblIdx_lt va, hpage, rfl⟩
    · cases hwalk
  · cases hwalk

/-- What user mode reaches through a directory whose kernel half is closed lies below 3 GiB. -/
theorem KernelHalf.user_idx (hk : KernelHalf image D (fun _ => False) m) (hva : va < 4294967296)
    (hu : Mm.userAccessible m (4096 * D) va = true) : pageDirIdx va < 768 := by
  by_contra hlt
  have hhigh : 0xC0000000 ≤ va := by
    simp only [pageDirIdx] at hlt
    omega
  rw [hk.userAccessible hhigh hva id] at hu
  cases hu

/-- The frames that are reached are the directory's pages. -/
theorem KernelHalf.reaches (hk : KernelHalf image D (fun _ => False) m) (hva : va < 4294967296)
    (hu : Mm.userAccessible m (4096 * D) va = true) (htr : Mm.translate m (4096 * D) va = some pa) :
    PageFrame m D (pa / 4096) := by
  obtain ⟨found, hwalk, rfl⟩ := Option.map_eq_some_iff.1 htr
  obtain ⟨-, hpage⟩ := walk_pageFrame hwalk (hk.user_idx hva hu)
  have hframe : (framePaddr found.2.frame + va % 4096) / 4096 = found.2.frame.toNat := by
    simp only [framePaddr]
    omega
  rw [hframe]
  exact hpage

/-- Nothing is reached through the kernel's own directory. -/
theorem UserSpaces.kernel_unreached (hi : UserSpaces image first Opened k Held) (hva : va < 4294967296) :
    userAccessible k.pmm.mem (4096 * image.dirFrame) va = false := by
  have hidx := pageDirIdx_lt hva
  rw [← Bool.not_eq_true]
  intro hu
  rw [userAccessible, Option.any_eq_true] at hu
  obtain ⟨found, hwalk, huser⟩ := hu
  rw [walk_frames] at hwalk
  split at hwalk
  · rename_i hp
    by_cases hlow : pageDirIdx va < 768
    · rw [hi.pages.kernel _ hlow] at hp
      cases hp
    · split at hwalk
      · cases hwalk
        rw [Bool.and_eq_true, hi.spaces.own.closed _ (by omega) hidx] at huser
        exact absurd huser.1 (by decide)
      · cases hwalk
  · cases hwalk

/-- Below 3 GiB the walk reads the directory and its tables. -/
theorem walk_sameFrame (hlow : pageDirIdx va < 768) (hdir : m.SameFrame m' D)
    (htables : ∀ T, UserTable m D T → m.SameFrame m' T) :
    walk m' (4096 * D) va = walk m (4096 * D) va := by
  rw [walk_frames, walk_frames, hdir.word (by omega)]
  split
  · rename_i hp
    rw [(htables _ ⟨_, hlow, hp, rfl⟩).word (pageTblIdx_lt va)]
  · rfl

/-- What is seen stays where the frames it is read from do. -/
theorem KernelHalf.userView_eq (hk : KernelHalf image D (fun _ => False) m)
    (hk' : KernelHalf image D (fun _ => False) m') (hva : va < 4294967296)
    (hsame : ∀ f, ViewFrame m D f → m.SameFrame m' f) :
    userView m' (4096 * D) va = userView m (4096 * D) va := by
  by_cases hlow : pageDirIdx va < 768
  · have hwalk := walk_sameFrame hlow (hsame D .directory) fun T hT => hsame T (.table hT)
    rw [userView, userView, Mm.userAccessible, Mm.userAccessible, hwalk]
    split
    · cases hfound : walk m (4096 * D) va with
      | none => rfl
      | some found =>
        obtain ⟨-, hpage⟩ := walk_pageFrame hfound hlow
        have hbyte := hsame _ (.page hpage) (framePaddr found.2.frame + va % 4096)
          (by simp only [framePaddr]; omega)
        rw [Option.map_some, Option.map_some, hbyte]
    · rfl
  · have hhigh : 0xC0000000 ≤ va := by
      simp only [pageDirIdx] at hlow
      omega
    rw [userView, userView, hk.userAccessible hhigh hva id, hk'.userAccessible hhigh hva id]
    rfl

theorem UserSpaces.kernelHalf (hi : UserSpaces image first Closed k Held) (hD : SpaceOf k D) :
    KernelHalf image D (fun _ => False) k.pmm.mem := hi.spaces.own.kernelHalf D hD

theorem UserSpaces.viewFrame_used (hi : UserSpaces image first Closed k Held) (hD : SpaceOf k D)
    (hf : ViewFrame k.pmm.mem D f) : k.pmm.framemap.test f = true := by
  cases hf with
  | directory => exact (hi.spaces.own.directory _ hD).used
  | pointers => exact (hi.spaces.own.directory _ hD).used'
  | table hT => exact (hi.spaces.own.tables _ hD _ hT).2.1
  | page hp => exact (hi.pages.pages _ hD _ hp).1.used

/-- No kernel table, and no frame that is held, is one of a process's space. -/
theorem UserSpaces.viewFrame_apart (hi : UserSpaces image first Closed k Held) (hD : SpaceOf k D)
    (hf : ViewFrame k.pmm.mem D f) : ¬ KernelTable image f ∧ ¬ Held f := by
  have hspace : ∀ {f}, SpaceFrame image k f → ¬ KernelTable image f ∧ ¬ Held f := fun h =>
    ⟨fun hT => hi.kernelTable hT h, fun hh => hi.held_frame hh h⟩
  cases hf with
  | directory => exact hspace (Or.inl ⟨D, Or.inr hD, Or.inl rfl⟩)
  | pointers => exact hspace (Or.inl ⟨D, Or.inr hD, Or.inr rfl⟩)
  | table hT => exact hspace (Or.inr ⟨D, hD, hT⟩)
  | page hp =>
    obtain ⟨hown, hnot⟩ := hi.pages.pages _ hD _ hp
    have hhigh := hown.high hi.low
    refine ⟨fun hT => ?_, hnot⟩
    have := hT.low
    omega

/-- A page is no frame of another space. -/
theorem UserSpaces.page_apart (hi : UserSpaces image first Closed k Held) (hD : SpaceOf k D)
    (hD' : SpaceOf k D') (hne : D ≠ D') (hp : PageFrame k.pmm.mem D f) :
    ¬ ViewFrame k.pmm.mem D' f := by
  have hown := (hi.pages.pages _ hD _ hp).1
  intro hf
  cases hf with
  | directory => exact (hown.directory _ hD').1 rfl
  | pointers => exact (hown.directory _ hD').2 rfl
  | table hT => exact hown.table _ hD' hT
  | page hp' => exact hi.pages.unshared _ _ hD hD' hne f hp hp'

/-- No frame is one of two spaces. -/
theorem UserSpaces.viewFrame_disjoint (hi : UserSpaces image first Closed k Held) (hD : SpaceOf k D)
    (hD' : SpaceOf k D') (hne : D ≠ D') (hf : ViewFrame k.pmm.mem D f) :
    ¬ ViewFrame k.pmm.mem D' f := by
  intro hf'
  have ho := hi.spaces.own
  obtain ⟨-, h₁, h₂⟩ := ho.apart D D' hD hD' hne
  cases hf' with
  | page hp => exact hi.page_apart hD' hD hne.symm hp hf
  | directory =>
    cases hf with
    | directory => exact hne rfl
    | pointers => exact h₂ rfl
    | table hT => exact ((ho.tables _ hD _ hT).2.2 _ hD').1 rfl
    | page hp => exact hi.page_apart hD hD' hne hp .directory
  | pointers =>
    cases hf with
    | directory => exact h₁ rfl
    | pointers => exact hne rfl
    | table hT => exact ((ho.tables _ hD _ hT).2.2 _ hD').2 rfl
    | page hp => exact hi.page_apart hD hD' hne hp .pointers
  | table hT =>
    cases hf with
    | directory => exact ((ho.tables _ hD' _ hT).2.2 _ hD).1 rfl
    | pointers => exact ((ho.tables _ hD' _ hT).2.2 _ hD).2 rfl
    | table hT' => exact ho.unshared _ _ hD hD' hne _ hT' hT
    | page hp => exact hi.page_apart hD hD' hne hp (.table hT)

/-- A step that keeps the frames of its view keeps what a process sees. -/
theorem UserSpaces.viewKept (hi : UserSpaces image first Closed k Held) (hi' : UserSpaces image first Closed k' Held')
    (hq : UserProcess k q) (hq' : UserProcess k' q) (hrecord : k'.procs q = k.procs q)
    (hsame : ∀ D, SpaceOf k D → (k.procs q).pageDirectory = kp2v (4096 * D) →
      ∀ f, ViewFrame k.pmm.mem D f → k.pmm.mem.SameFrame k'.pmm.mem f) : ViewKept k k' q := by
  refine ⟨hq', hrecord, fun va hva => ?_⟩
  obtain ⟨D, hD, hdir⟩ := hi.spaces.placed q hq
  have hlow := hD.1
  have hD' : SpaceOf k' D := ⟨hlow, q, hq', by rw [hrecord]; exact hdir⟩
  rw [hrecord, hdir, kv2p_kp2v_frame (by omega)]
  exact (hi.kernelHalf hD).userView_eq (hi'.kernelHalf hD') hva (hsame D hD hdir)

/-! ## The steps, and what another process sees -/

theorem UserSpaces.create_view {c : CreateCall} {r : Nat} (hi : UserSpaces image first Closed k Held)
    (huser : UserPages (stackBottomAl c.stackSize) (stackPages c.stackSize))
    (h : CreateStep image k (c, r) k') (hok : k'.pmm.failed = false) (hq : UserProcess k q) :
    ViewKept k k' q := by
  have hi' := hi.create huser h hok
  rcases hi.created h hok with ⟨-, rfl⟩ | ⟨-, D, stackPhys, hmade, hspace⟩
  · exact .refl hq
  · obtain ⟨hq', hrecord⟩ := hmade.kept q hq
    exact hi.viewKept hi' hq hq' hrecord fun D' hD' _ f hf =>
      hspace.mem f (hi.viewFrame_used hD' hf) fun _ => huser

/-- What is in use, and is no frame of the process's own space, stays when pages are mapped. -/
theorem UserSpaces.map_same (hi : UserSpaces image first Opened k Held) (hp : UserProcess k p)
    (huser : UserPages virt pages) (h : procMapPages k p virt phys pages w = some (k', ok))
    (hused : k.pmm.framemap.test f = true)
    (hapart : ∀ D, SpaceOf k D → (k.procs p).pageDirectory = kp2v (4096 * D) →
      f ≠ D ∧ f ≠ D + 1 ∧ ¬ UserTable k.pmm.mem D f) : k.pmm.mem.SameFrame k'.pmm.mem f := by
  obtain ⟨D, s', hD, hdir, rfl, -, hmaps⟩ := hi.spaces.mapPages hp huser h
  obtain ⟨h₁, h₂, h₃⟩ := hapart D hD hdir
  apply hmaps.sameFrame hused h₁ h₂ h₃
  intro i h₀ _ hlt
  omega

theorem UserSpaces.map_view (hi : UserSpaces image first Closed k Held) (hp : UserProcess k p)
    (huser : UserPages virt pages) (hheld : ∀ f, (framesOf phys pages).Mem f → Held f)
    (h : procMapPages k p virt phys pages w = some (k', ok)) (hq : UserProcess k q) (hne : p ≠ q) :
    ViewKept k k' q := by
  have hi' := hi.mapPages hp huser hheld h
  have hrecord : k'.procs = k.procs ∧ k'.procList = k.procList := by
    obtain ⟨D, s', -, -, rfl, -⟩ := hi.spaces.mapPages hp huser h
    exact ⟨rfl, rfl⟩
  refine hi.viewKept hi' hq ?_ (by rw [hrecord.1]) fun D' hD' hdir' f hf =>
    hi.map_same hp huser h (hi.viewFrame_used hD' hf) fun D hD hdir => ?_
  · unfold UserProcess
    rw [hrecord.2]
    exact hq
  · have hapart : D' ≠ D := by
      rintro rfl
      exact hne (hi.distinct p q hp hq (hdir.trans hdir'.symm))
    have hnot := hi.viewFrame_disjoint hD' hD hapart hf
    refine ⟨?_, ?_, fun hT => hnot (.table hT)⟩
    · rintro rfl
      exact hnot .directory
    · rintro rfl
      exact hnot .pointers

/-- Writes to the kernel's tables alone, such as those of `kmap` and `kunmap`. -/
theorem UserSpaces.tables (hi : UserSpaces image first Opened k Held)
    (hsame : ∀ f, ¬ KernelTable image f → k.pmm.mem.SameFrame s'.mem f)
    (hused : ∀ f, k.pmm.framemap.test f = true → s'.framemap.test f = true) :
    UserSpaces image first Opened { k with pmm := s' } Held :=
  hi.kept hused fun f hf => hsame f fun hT => hi.kernelTable hT hf

/-- Writes to what is no frame of a space are seen by no process. -/
theorem UserSpaces.unseen (hi : UserSpaces image first Closed k Held)
    (hi' : UserSpaces image first Closed { k with pmm := s' } Held')
    (hsame : ∀ f, ¬ KernelTable image f → ¬ Held f → k.pmm.mem.SameFrame s'.mem f)
    (hq : UserProcess k q) : ViewKept k { k with pmm := s' } q := by
  refine hi.viewKept hi' hq hq rfl fun D hD _ f hf => ?_
  obtain ⟨h₁, h₂⟩ := hi.viewFrame_apart hD hf
  exact hsame f h₁ h₂

theorem UserSpaces.alloc_view (hi : UserSpaces image first Closed k Held)
    (h : k.pmm.allocPages flags count = some (s', base)) (hne : base ≠ 0) (hq : UserProcess k q) :
    ViewKept k { k with pmm := s' } q := by
  obtain ⟨-, heq⟩ := Pmm.allocPages_eq_some h
  refine hi.unseen (hi.alloc h hne) (fun f _ _ => ?_) hq
  rw [heq]
  exact .refl _ f

/-- A store in user mode goes to a page of the directory that is loaded, a process's. -/
theorem UserSpaces.store_page (hi : UserSpaces image first Closed k Held) (hva : va < 4294967296)
    (hu : userAccessible k.pmm.mem k.cr3 va = true) (htr : Mm.translate k.pmm.mem k.cr3 va = some pa) :
    ∃ C, SpaceOf k C ∧ k.cr3 = 4096 * C ∧ PageFrame k.pmm.mem C (pa / 4096) := by
  obtain ⟨C, hC | hC, -, hcr3⟩ := hi.loaded
  · rw [hcr3, hC, hi.kernel_unreached hva] at hu
    cases hu
  · rw [hcr3] at hu htr
    exact ⟨C, hC, hcr3, (hi.kernelHalf hC).reaches hva hu htr⟩

theorem UserSpaces.store (hi : UserSpaces image first Closed k Held) (hva : va < 4294967296)
    (hu : userAccessible k.pmm.mem k.cr3 va = true) (htr : Mm.translate k.pmm.mem k.cr3 va = some pa)
    (c : Byte) : UserSpaces image first Closed
      { k with pmm := { k.pmm with mem := Function.update k.pmm.mem pa c } } Held := by
  obtain ⟨C, hC, -, hpage⟩ := hi.store_page hva hu htr
  refine hi.kept (fun _ hf => hf) fun f hf => Mem.sameFrame_update _ c ?_
  rintro rfl
  exact (hi.pages.pages C hC _ hpage).1.not_spaceFrame hi.low hf

/-- It is seen through no other directory. -/
theorem UserSpaces.store_view (hi : UserSpaces image first Closed k Held) (hva : va < 4294967296)
    (hu : userAccessible k.pmm.mem k.cr3 va = true) (htr : Mm.translate k.pmm.mem k.cr3 va = some pa)
    (c : Byte) (hq : UserProcess k q) (hne : k.cr3 ≠ kv2p (k.procs q).pageDirectory) :
    ViewKept k { k with pmm := { k.pmm with mem := Function.update k.pmm.mem pa c } } q := by
  obtain ⟨C, hC, hcr3, hpage⟩ := hi.store_page hva hu htr
  refine hi.viewKept (hi.store hva hu htr c) hq hq rfl fun D hD hdir f hf =>
    Mem.sameFrame_update _ c ?_
  have hlow := hD.1
  have hapart : C ≠ D := by
    rintro rfl
    rw [hdir, kv2p_kp2v_frame (by omega)] at hne
    exact hne hcr3
  rintro rfl
  exact hi.page_apart hC hD hapart hpage hf

end UserViews

end BrownieOS.Process
