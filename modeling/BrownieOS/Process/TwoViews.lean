import BrownieOS.Core.Syscall
import BrownieOS.Mm.CloneFrames
import BrownieOS.Process.PidIndex

/-!
# The two views of a page directory

The processor walks the frames in a directory's entries, the kernel follows the pointers
behind them. Three functions write both: `setup_kernel_directory`, `clone_page_dir` and
`proc_map_pages`. Over any run of them, on any directories, the views name the same tables,
so `user_addr_accessible` and the processor agree on every address.
-/
namespace BrownieOS.Process

open BrownieOS.Lib BrownieOS.Lib.Word32 BrownieOS.Mm BrownieOS.Core

/-- Frames and memory, and the directories there are. -/
structure SpaceState where
  pmm : Pmm
  dirs : List Nat

/-- The frame of a directory's entries. -/
def frameAt (dir : Nat) : Nat := kv2p dir / 4096

/-- What changes directories, and what goes on beside it: frames taken and bytes stored. -/
inductive SpaceCall
  | clone (active : Nat)
  | mapPages (dir virt phys pages : Nat) (writable : Bool)
  | alloc (flags : PmmFlags) (count : Nat)
  | store (paddr : Nat) (c : Byte)

/-- A directory as `create_proc` makes it while `active` is loaded, or pages mapped below
3 GiB, each with all that it allocates; frames for any other purpose; or a byte that is in
no directory. -/
def SpaceStep (image : KernelImage) (t : SpaceState) : SpaceCall → SpaceState → Prop
  | .clone active, t' => active ∈ t.dirs ∧ ∃ s₁ base s₂,
      t.pmm.allocPages pmmFlagsDefault 2 = some (s₁, base) ∧
      clonePageDir image.dir (kv2p active) image.dir (kp2v base)
        { s₁ with mem := s₁.mem.fill (kv2p (kp2v base)) 8192 0 } = some s₂ ∧
      s₂.failed = false ∧ t' = ⟨s₂, kp2v base :: t.dirs⟩
  | .mapPages dir virt phys pages writable, t' => dir ∈ t.dirs ∧
      virt + 4096 * pages ≤ 0xC0000000 ∧ ∃ s',
        procMapLoop dir virt phys writable 0 pages t.pmm = some (s', true) ∧ t' = { t with pmm := s' }
  | .alloc flags count, t' => ∃ s' base, base ≠ 0 ∧
      t.pmm.allocPages flags count = some (s', base) ∧ t' = { t with pmm := s' }
  | .store paddr c, t' =>
      (∀ dir ∈ t.dirs, paddr / 4096 ≠ frameAt dir ∧ paddr / 4096 ≠ frameAt dir + 1) ∧
      t' = { t with pmm := { t.pmm with mem := Function.update t.pmm.mem paddr c } }

/-- A frame that may be a table below 3 GiB: none of the image and of no directory. -/
def TableFrame (dirs : List Nat) (T : Nat) : Prop :=
  1024 ≤ T ∧ ∀ dir ∈ dirs, T ≠ frameAt dir ∧ T ≠ frameAt dir + 1

/-- Where a directory lies. -/
structure Placed (image : KernelImage) (s : Pmm) (dir : Nat) : Prop where
  nonNull : dir ≠ 0
  frame : kv2p dir = 4096 * frameAt dir
  used : s.framemap.test (frameAt dir) = true
  used' : s.framemap.test (frameAt dir + 1) = true
  notTable : ¬ KernelTable image (frameAt dir)
  notTable' : ¬ KernelTable image (frameAt dir + 1)

/-- A directory has the kernel's entries above 3 GiB, and below it the two views agree. -/
structure Viewed (image : KernelImage) (dirs : List Nat) (s : Pmm) (dir : Nat) : Prop where
  kernelHalf : ∀ i, 768 ≤ i → i < 1024 →
    s.mem.word (frameAt dir) i = s.mem.word image.dirFrame i ∧
      s.mem.word (frameAt dir + 1) i = s.mem.word (image.dirFrame + 1) i
  userHalf : Mirrored s.mem (frameAt dir) (· < 768) fun T => TableFrame dirs T ∧ s.framemap.test T = true

/-- The invariant of all directories. -/
structure SpacesInv (image : KernelImage) (t : SpaceState) : Prop where
  reserved : ∀ f < 1024, t.pmm.framemap.test f = true
  directory : KernelDirectory t.pmm.mem image
  kernel : image.dir ∈ t.dirs
  placed : ∀ dir ∈ t.dirs, Placed image t.pmm dir
  apart : ∀ dir ∈ t.dirs, ∀ dir' ∈ t.dirs, dir ≠ dir' → DirectoriesApart (frameAt dir) (frameAt dir')
  views : ∀ dir ∈ t.dirs, Viewed image t.dirs t.pmm dir

section Views

variable {image : KernelImage} {t t' : SpaceState} {s s' : Pmm} {dirs : List Nat} {dir : Nat}

theorem Placed.mono (h : Placed image s dir)
    (hused : ∀ f, s.framemap.test f = true → s'.framemap.test f = true) : Placed image s' dir :=
  ⟨h.nonNull, h.frame, hused _ h.used, hused _ h.used', h.notTable, h.notTable'⟩

theorem frameAt_dir : frameAt image.dir = image.dirFrame := rfl

theorem TableFrame.cons {T : Nat} (h : TableFrame dirs T) (h₁ : T ≠ frameAt dir)
    (h₂ : T ≠ frameAt dir + 1) : TableFrame (dir :: dirs) T := by
  refine ⟨h.1, fun dir' hd => ?_⟩
  rcases List.mem_cons.1 hd with rfl | hd
  · exact ⟨h₁, h₂⟩
  · exact h.2 dir' hd

/-- A directory whose frames stay is viewed as before. -/
theorem Viewed.keep {dirs' : List Nat} (h : Viewed image dirs s dir)
    (hD : s.mem.SameFrame s'.mem (frameAt dir)) (hD' : s.mem.SameFrame s'.mem (frameAt dir + 1))
    (hK : s.mem.SameFrame s'.mem image.dirFrame) (hK' : s.mem.SameFrame s'.mem (image.dirFrame + 1))
    (hT : ∀ T, TableFrame dirs T → s.framemap.test T = true →
      TableFrame dirs' T ∧ s'.framemap.test T = true) : Viewed image dirs' s' dir := by
  refine ⟨fun i h₀ h₁ => ?_, (h.userHalf.of_sameFrame hD hD').mono (fun _ h => h)
    fun T hP => hT T hP.1 hP.2⟩
  rw [hD.word h₁, hD'.word h₁, hK.word h₁, hK'.word h₁]
  exact h.kernelHalf i h₀ h₁

/-- Where the directories' frames stay, all stays. -/
theorem SpacesInv.of_sameFrame (hi : SpacesInv image t)
    (hused : ∀ f, t.pmm.framemap.test f = true → s'.framemap.test f = true)
    (hsame : ∀ dir ∈ t.dirs, t.pmm.mem.SameFrame s'.mem (frameAt dir) ∧
      t.pmm.mem.SameFrame s'.mem (frameAt dir + 1)) : SpacesInv image { t with pmm := s' } := by
  obtain ⟨hK, hK'⟩ := hsame _ hi.kernel
  exact ⟨fun f hf => hused f (hi.reserved f hf), hi.directory.of_sameFrame hK hK', hi.kernel,
    fun dir hd => (hi.placed dir hd).mono hused, hi.apart, fun dir hd =>
      (hi.views dir hd).keep (hsame dir hd).1 (hsame dir hd).2 hK hK' fun T hT hT' => ⟨hT, hused T hT'⟩⟩

theorem SpacesInv.alloc {base count : Nat} {flags : PmmFlags} (hi : SpacesInv image t)
    (h : t.pmm.allocPages flags count = some (s', base)) : SpacesInv image { t with pmm := s' } := by
  have hg := Pmm.allocPages_grows (hi.reserved 0 (by decide)) h
  obtain ⟨-, heq⟩ := Pmm.allocPages_eq_some h
  have hmem : s'.mem = t.pmm.mem := by rw [heq]
  refine hi.of_sameFrame hg.used fun dir _ => ?_
  rw [hmem]
  exact ⟨.refl _ _, .refl _ _⟩

theorem SpacesInv.store {paddr : Nat} (hi : SpacesInv image t) (c : Byte)
    (hoff : ∀ dir ∈ t.dirs, paddr / 4096 ≠ frameAt dir ∧ paddr / 4096 ≠ frameAt dir + 1) :
    SpacesInv image { t with pmm := { t.pmm with mem := Function.update t.pmm.mem paddr c } } := by
  refine hi.of_sameFrame (fun _ hf => hf) fun dir hd => ?_
  obtain ⟨h, h'⟩ := hoff dir hd
  exact ⟨Mem.sameFrame_update _ c h.symm, Mem.sameFrame_update _ c h'.symm⟩

/-! ## Mapping pages -/

/-- A free low frame may become a table. -/
theorem SpacesInv.tableFrame_of_free (hi : SpacesInv image t) {f : Nat}
    (hfree : t.pmm.framemap.test f = false) : TableFrame t.dirs f := by
  refine ⟨?_, fun dir hd => ⟨fun he => ?_, fun he => ?_⟩⟩
  · by_contra hlt
    rw [hi.reserved f (by omega)] at hfree
    cases hfree
  · rw [he, (hi.placed dir hd).used] at hfree
    cases hfree
  · rw [he, (hi.placed dir hd).used'] at hfree
    cases hfree

theorem SpacesInv.own (hi : SpacesInv image t) (hd : dir ∈ t.dirs) :
    OwnDirectory t.pmm (frameAt dir) (· < 768) (TableFrame t.dirs) where
  frame0 := hi.reserved 0 (by decide)
  used := (hi.placed dir hd).used
  used' := (hi.placed dir hd).used'
  apart := fun h => (h.2 dir hd).1 rfl
  apart' := fun h => (h.2 dir hd).2 rfl
  free := fun _ _ hfree => hi.tableFrame_of_free hfree
  mirrored := (hi.views dir hd).userHalf

theorem pageVirt_user {virt pages k : Nat} (h : virt + 4096 * pages ≤ 0xC0000000) (hk : k < pages) :
    pageDirIdx (pageVirt virt k) < 768 := by
  simp only [pageVirt, pageDirIdx, wadd, wmul, pageSize]
  omega

theorem SpacesInv.mapPages {virt phys pages : Nat} {writable ok : Bool} (hi : SpacesInv image t)
    (hd : dir ∈ t.dirs) (hrange : virt + 4096 * pages ≤ 0xC0000000)
    (h : procMapLoop dir virt phys writable 0 pages t.pmm = some (s', ok)) :
    SpacesInv image { t with pmm := s' } := by
  obtain ⟨hown, hw, -⟩ := procMapLoop_own (hi.placed dir hd).frame (hi.own hd)
    (fun k _ hk => pageVirt_user hrange (by omega)) h
  -- the other directories' frames are no tables, and the entries above 3 GiB are not mapped
  have hother : ∀ dir' ∈ t.dirs, dir' ≠ dir → t.pmm.mem.SameFrame s'.mem (frameAt dir') ∧
      t.pmm.mem.SameFrame s'.mem (frameAt dir' + 1) := by
    intro dir' hd' hne
    obtain ⟨h₁, h₂, h₃⟩ := hi.apart dir' hd' dir hd hne
    exact ⟨hw.others _ h₁ h₂ fun hT => (hT.2 dir' hd').1 rfl,
      hw.others _ h₃ (by omega) fun hT => (hT.2 dir' hd').2 rfl⟩
  have hkern : ∀ dir' ∈ t.dirs, ∀ i, 768 ≤ i → i < 1024 →
      s'.mem.word (frameAt dir') i = t.pmm.mem.word (frameAt dir') i ∧
        s'.mem.word (frameAt dir' + 1) i = t.pmm.mem.word (frameAt dir' + 1) i := by
    intro dir' hd' i h₀ h₁
    by_cases he : dir' = dir
    · rw [he]
      exact hw.entries i h₁ (by omega)
    · obtain ⟨hD, hD'⟩ := hother dir' hd' he
      exact ⟨hD.word h₁, hD'.word h₁⟩
  refine ⟨fun f hf => hw.used f (hi.reserved f hf), hi.directory.of_words (hkern _ hi.kernel), hi.kernel,
    fun dir' hd' => (hi.placed dir' hd').mono hw.used, hi.apart, fun dir' hd' => ⟨fun i h₀ h₁ => ?_, ?_⟩⟩
  · have hK := hkern _ hi.kernel i h₀ h₁
    rw [frameAt_dir] at hK
    rw [(hkern dir' hd' i h₀ h₁).1, (hkern dir' hd' i h₀ h₁).2, hK.1, hK.2]
    exact (hi.views dir' hd').kernelHalf i h₀ h₁
  · by_cases he : dir' = dir
    · rw [he]
      exact hown.mirrored
    · obtain ⟨hD, hD'⟩ := hother dir' hd' he
      exact ((hi.views dir' hd').userHalf.of_sameFrame hD hD').mono (fun _ h => h)
        fun T hT => ⟨hT.1, hw.used T hT.2⟩

/-! ## A new directory -/

/-- A directory of the system can be the one that is loaded. -/
theorem SpacesInv.active (hi : SpacesInv image t) (hd : dir ∈ t.dirs) :
    ActiveDirectory image (frameAt dir) t.pmm where
  reserved := hi.reserved
  directory := hi.directory
  used := (hi.placed dir hd).used
  apart := (hi.placed dir hd).notTable
  entries := fun i h₀ h₁ => ((hi.views dir hd).kernelHalf i h₀ h₁).1

theorem decode_clonedWord (w T : Nat) : PageDirEntry.decode (clonedWord w T) =
    { PageDirEntry.decode w with frame := BitVec.ofNat 20 T, accessed := false } :=
  PageDirEntry.decode_encode _

/-- The frames of a new directory, before it is filled. -/
structure NewFrames (D : Nat) (s s' : Pmm) : Prop where
  low : D + 1 < lowFrames
  fresh : s.framemap.test D = false
  fresh' : s.framemap.test (D + 1) = false
  used : s'.framemap.test D = true
  used' : s'.framemap.test (D + 1) = true
  grows : ∀ f, s.framemap.test f = true → s'.framemap.test f = true
  mem : s'.mem = s.mem.zeroFrames D 2

theorem NewFrames.ne {D f : Nat} (hn : NewFrames D s s') (hf : s.framemap.test f = true) :
    f ≠ D ∧ f ≠ D + 1 := by
  constructor
  · intro he
    rw [he, hn.fresh] at hf
    cases hf
  · intro he
    rw [he, hn.fresh'] at hf
    cases hf

theorem NewFrames.keeps {D : Nat} (hn : NewFrames D s s') :
    Keeps image (fun f => f = D ∨ f = D + 1) s s' := by
  refine ⟨hn.grows, fun f _ hf _ => ?_⟩
  rw [hn.mem]
  exact Mem.sameFrame_zeroFrames _ (by omega)

/-- Two frames that were had are new, and zeroed. -/
theorem newFrames_of_alloc {s₁ : Pmm} {base : Nat} (h0 : s.framemap.test 0 = true)
    (h : s.allocPages pmmFlagsDefault 2 = some (s₁, base)) (hok : s₁.failed = false) :
    ∃ D, base = 4096 * D ∧ kv2p (kp2v base) = 4096 * D ∧
      NewFrames D s { s₁ with mem := s₁.mem.fill (kv2p (kp2v base)) 8192 0 } := by
  obtain ⟨hmem, ⟨-, -, hfailed⟩ | ⟨D, rfl, -, hlow, hnew, -⟩⟩ := Pmm.allocPages_low h0 (by decide) h
  · rw [hfailed] at hok
    cases hok
  · have hptr := kv2p_kp2v_frame (show D < lowFrames by omega)
    obtain ⟨hfree, hmarked⟩ := hnew.range
    refine ⟨D, rfl, hptr, hlow, hfree D (by omega) (by omega), hfree (D + 1) (by omega) (by omega),
      ?_, ?_, (Pmm.allocPages_grows h0 h).used, ?_⟩
    · rw [hmarked, decide_eq_true (by omega)]
      rfl
    · rw [hmarked, decide_eq_true (by omega)]
      rfl
    · rw [hptr, hmem, Mem.zeroFrames]

/-- The new directory and its tables, over the frames `s₀` that it was cloned into. -/
theorem SpacesInv.viewed_clone {D : Nat} {s₀ : Pmm} (hi : SpacesInv image t) (hD : frameAt dir = D)
    (hn : NewFrames D t.pmm s₀) (hc : Cloned image image.dirFrame D s₀ s')
    (hK : s₀.mem.SameFrame s'.mem image.dirFrame)
    (hK' : s₀.mem.SameFrame s'.mem (image.dirFrame + 1)) : Viewed image (dir :: t.dirs) s' dir := by
  constructor
  · intro i h₀ h₁
    rw [hD, (hc.kernelHalf i h₀ h₁).1, (hc.kernelHalf i h₀ h₁).2, hK.word h₁, hK'.word h₁]
    exact ⟨rfl, rfl⟩
  · intro i hi' huser hpresent
    rw [hD] at hpresent ⊢
    rcases hc.userHalf i huser with hz | ⟨T, hT, hfresh, hused, hentry, hpointer⟩
    · rw [hz] at hpresent
      cases hpresent
    · have hfree : t.pmm.framemap.test T = false := by
        cases hf : t.pmm.framemap.test T with
        | false => rfl
        | true =>
          rw [hn.grows T hf] at hfresh
          cases hfresh
      have hne : T ≠ D ∧ T ≠ D + 1 := by
        constructor
        · intro he
          rw [he, hn.used] at hfresh
          cases hfresh
        · intro he
          rw [he, hn.used'] at hfresh
          cases hfresh
      rw [← hD] at hne
      refine ⟨T, hT, ⟨(hi.tableFrame_of_free hfree).cons hne.1 hne.2, hused⟩, hpointer, ?_⟩
      rw [hentry, decode_clonedWord]
      exact toNat_ofNat_low hT

theorem SpacesInv.cloned {D : Nat} {s₀ : Pmm} (hi : SpacesInv image t) (hdir : kv2p dir = 4096 * D)
    (hne : dir ≠ 0) (hn : NewFrames D t.pmm s₀) (hc : Cloned image image.dirFrame D s₀ s') :
    SpacesInv image ⟨s', dir :: t.dirs⟩ := by
  have hkeep : Keeps image (fun f => f = D ∨ f = D + 1) t.pmm s' := hn.keeps.trans hc.keeps
  have hD : frameAt dir = D := by
    unfold frameAt
    omega
  have hhigh : 1024 ≤ D := (hi.tableFrame_of_free hn.fresh).1
  -- what was used is neither frame of the new directory
  have hsame : ∀ dir' ∈ t.dirs, t.pmm.mem.SameFrame s'.mem (frameAt dir') ∧
      t.pmm.mem.SameFrame s'.mem (frameAt dir' + 1) := by
    intro dir' hd'
    have hp := hi.placed dir' hd'
    obtain ⟨h₁, h₂⟩ := hn.ne hp.used
    obtain ⟨h₃, h₄⟩ := hn.ne hp.used'
    exact ⟨hkeep.frames _ hp.used (by omega) hp.notTable, hkeep.frames _ hp.used' (by omega) hp.notTable'⟩
  have hold := hi.of_sameFrame hkeep.used hsame
  obtain ⟨hK, hK'⟩ := hsame _ hi.kernel
  have hplaced : Placed image s' dir := by
    subst hD
    exact ⟨hne, hdir, hc.keeps.used _ hn.used, hc.keeps.used _ hn.used',
      fun hT => absurd hT.low (by omega), fun hT => absurd hT.low (by omega)⟩
  have hapart : ∀ dir' ∈ t.dirs, DirectoriesApart (frameAt dir') (frameAt dir) ∧
      DirectoriesApart (frameAt dir) (frameAt dir') := by
    intro dir' hd'
    have hp := hi.placed dir' hd'
    obtain ⟨h₁, h₂⟩ := hn.ne hp.used
    obtain ⟨h₃, h₄⟩ := hn.ne hp.used'
    rw [hD]
    exact ⟨⟨by omega, by omega, by omega⟩, ⟨by omega, by omega, by omega⟩⟩
  have hviewed : Viewed image (dir :: t.dirs) s' dir := by
    have hp := hi.placed _ hi.kernel
    obtain ⟨h₁, h₂⟩ := hn.ne hp.used
    obtain ⟨h₃, h₄⟩ := hn.ne hp.used'
    rw [frameAt_dir] at h₁ h₂ h₃ h₄
    exact hi.viewed_clone hD hn hc
      (hc.keeps.frames _ (hn.grows _ hp.used) (by omega) hp.notTable)
      (hc.keeps.frames _ (hn.grows _ hp.used') (by omega) hp.notTable')
  refine ⟨hold.reserved, hold.directory, List.mem_cons_of_mem _ hi.kernel, fun dir' hd' => ?_,
    fun dir₁ h₁ dir₂ h₂ hdiff => ?_, fun dir' hd' => ?_⟩
  · rcases List.mem_cons.1 hd' with rfl | hd'
    · exact hplaced
    · exact hold.placed dir' hd'
  · rcases List.mem_cons.1 h₁ with he₁ | hd₁
    · rcases List.mem_cons.1 h₂ with he₂ | hd₂
      · exact absurd (he₁.trans he₂.symm) hdiff
      · rw [he₁]
        exact (hapart dir₂ hd₂).2
    · rcases List.mem_cons.1 h₂ with he₂ | hd₂
      · rw [he₂]
        exact (hapart dir₁ hd₁).1
      · exact hi.apart dir₁ hd₁ dir₂ hd₂ hdiff
  · rcases List.mem_cons.1 hd' with rfl | hd'
    · exact hviewed
    · refine (hi.views dir' hd').keep (hsame dir' hd').1 (hsame dir' hd').2 hK hK' fun T hT hused => ?_
      obtain ⟨h₁, h₂⟩ := hn.ne hused
      rw [← hD] at h₁ h₂
      exact ⟨hT.cons h₁ h₂, hkeep.used T hused⟩

/-! ## Runs -/

theorem SpacesInv.step {c : SpaceCall} (hi : SpacesInv image t) (h : SpaceStep image t c t') :
    SpacesInv image t' := by
  have h0 := hi.reserved 0 (by decide)
  cases c with
  | clone active =>
    obtain ⟨hactive, s₁, base, s₂, halloc, hclone, hok, rfl⟩ := h
    have hgrows := clonePageDir_grows
      (s := { s₁ with mem := s₁.mem.fill (kv2p (kp2v base)) 8192 0 })
      ((Pmm.allocPages_grows h0 halloc).used 0 h0) hclone
    obtain ⟨D, -, hptr, hn⟩ := newFrames_of_alloc h0 halloc (hgrows.not_failed hok)
    obtain ⟨s₀, hs₀⟩ : ∃ s₀ : Pmm, s₀ = { s₁ with mem := s₁.mem.fill (kv2p (kp2v base)) 8192 0 } :=
      ⟨_, rfl⟩
    rw [← hs₀] at hn hclone
    have hkeep : Keeps image (fun f => f = D ∨ f = D + 1) t.pmm s₀ := hn.keeps
    have hhigh : 1024 ≤ D := (hi.tableFrame_of_free hn.fresh).1
    have hlow := image.frames_low (i := 768) (by decide) (by decide)
    have hpa := hi.placed active hactive
    have hpk := hi.placed _ hi.kernel
    obtain ⟨hC, hC'⟩ := hn.ne hpa.used
    have hsite : DirSite image (frameAt active) D s₀ :=
      ⟨hkeep.active (hi.active hactive) (by omega) (by omega) (by omega), hhigh, hn.used, hn.used',
        hC, hC'⟩
    have hsource : SourceDirectory image image.dirFrame D s₀ :=
      ⟨⟨by omega, by omega, by omega⟩, hkeep.used _ hpk.used, hkeep.used _ hpk.used', hpk.notTable,
        hpk.notTable'⟩
    have hzero : ∀ i < 1024, s₀.mem.word D i = 0 := by
      intro i hi'
      rw [hn.mem]
      exact Mem.word_zeroFrames _ hi' (Nat.le_refl D) (by omega)
    rw [hpa.frame] at hclone
    exact hi.cloned hptr (kp2v_dir_ne_zero h0 halloc) hn
      (hsite.clone image.kv2p_dir hptr hsource hzero hclone hok)
  | mapPages dir virt phys pages writable =>
    obtain ⟨hd, hrange, s', hmap, rfl⟩ := h
    exact hi.mapPages hd hrange hmap
  | alloc flags count =>
    obtain ⟨s', base, -, halloc, rfl⟩ := h
    exact hi.alloc halloc
  | store paddr c =>
    obtain ⟨hoff, rfl⟩ := h
    exact hi.store c hoff

theorem Paged.spacesInv (hp : Paged image s) : SpacesInv image ⟨s, [image.dir]⟩ := by
  have hk := hp.kernelSpace
  obtain ⟨hlow, -, -, -⟩ := image.frames_low (i := 768) (by decide) (by decide)
  have hin := image.dirInside
  refine ⟨hk.reserved, hk.directory, List.mem_singleton_self _, fun dir hd => ?_,
    fun dir hd dir' hd' hne => ?_, fun dir hd => ?_⟩
  · rw [List.mem_singleton.1 hd]
    exact ⟨by omega, image.kv2p_dir, hk.reserved _ (by rw [frameAt_dir]; omega), hk.reserved _ hlow,
      not_kernelTable_dirFrame, not_kernelTable_dirFrame_succ⟩
  · exact absurd ((List.mem_singleton.1 hd).trans (List.mem_singleton.1 hd').symm) hne
  · rw [List.mem_singleton.1 hd]
    refine ⟨fun _ _ _ => ⟨rfl, rfl⟩, fun i _ huser hpresent => ?_⟩
    rw [frameAt_dir, hp.userWords i huser] at hpresent
    cases hpresent

theorem SpacesInv.run {calls : List SpaceCall} (hp : Paged image s)
    (hrun : Run (SpaceStep image) ⟨s, [image.dir]⟩ calls t) : SpacesInv image t :=
  hrun.invariant (I := SpacesInv image) (fun _ _ _ hi h => hi.step h) hp.spacesInv

/-- What the invariant says of one entry: the kernel's pointer is that of the frame. -/
theorem SpacesInv.pointer (hi : SpacesInv image t) (hd : dir ∈ t.dirs) {i : Nat} (hi' : i < 1024)
    (hpresent : (getDirEntry t.pmm.mem dir i).present = true) :
    getTable t.pmm.mem dir i = kp2v (framePaddr (getDirEntry t.pmm.mem dir i).frame) := by
  have hp := hi.placed dir hd
  rw [getDirEntry_eq hp.frame] at hpresent ⊢
  rw [getTable_eq hp.frame]
  by_cases hkern : 768 ≤ i
  · have hptr := hi.directory.pointers i hkern hi'
    have hframe := hi.directory.frame i hkern hi'
    rw [getTable_eq image.kv2p_dir] at hptr
    rw [getDirEntry_eq image.kv2p_dir] at hframe
    obtain ⟨h₁, h₂⟩ := (hi.views dir hd).kernelHalf i hkern hi'
    rw [h₁, h₂, hptr, hframe, image.table_eq_kp2v hkern hi', KernelImage.tablePaddr,
      image.kv2p_table i hkern hi']
  · obtain ⟨T, -, -, hptr, hframe⟩ := (hi.views dir hd).userHalf i hi' (by omega) hpresent
    rw [hptr, framePaddr, hframe, Nat.mul_comm]

theorem SpacesInv.mirrors (hi : SpacesInv image t) (hd : dir ∈ t.dirs) :
    MirrorsTables t.pmm.mem dir := by
  have hp := hi.placed dir hd
  have hpointer : ∀ i < 768, (getDirEntry t.pmm.mem dir i).present = true → ∃ T < lowFrames,
      getTable t.pmm.mem dir i = kp2v (4096 * T) ∧
        framePaddr (getDirEntry t.pmm.mem dir i).frame = 4096 * T := by
    intro i huser hpresent
    rw [getDirEntry_eq hp.frame] at hpresent ⊢
    rw [getTable_eq hp.frame]
    obtain ⟨T, hT, -, hptr, hframe⟩ := (hi.views dir hd).userHalf i (by omega) huser hpresent
    exact ⟨T, hT, hptr, by rw [framePaddr, hframe, Nat.mul_comm]⟩
  constructor
  · intro i huser hpresent
    obtain ⟨T, hT, hptr, -⟩ := hpointer i huser hpresent
    rw [hptr]
    exact kp2v_low_ne_zero hT
  · intro i huser hpresent
    obtain ⟨T, hT, hptr, hframe⟩ := hpointer i huser hpresent
    rw [hptr, hframe, kv2p_kp2v_frame hT]

/-! ## `create_proc` and `proc_map_pages` are steps -/

/-- The calls that make the space of a process. -/
def spaceCalls (active dir stackSize phys : Nat) : List SpaceCall :=
  [.clone active, .alloc pmmFlagsHighmem (stackPages stackSize),
    .mapPages dir (stackBottomAl stackSize) phys (stackPages stackSize) true]

/-- A process that is made without a failure, its stack below 3 GiB. -/
theorem DirectoryOutcome.spaceRun {k k' : Kernel} {proc procIdx entry stackSize active : Nat}
    (h : DirectoryOutcome image k proc procIdx entry stackSize k' proc) (hproc : proc ≠ 0)
    (h0 : k.pmm.framemap.test 0 = true) (hactive : active ∈ dirs) (hcr3 : kv2p active = k.cr3)
    (hrange : stackBottomAl stackSize + 4096 * stackPages stackSize ≤ 0xC0000000)
    (hok : k'.pmm.failed = false) :
    ∃ phys, Run (SpaceStep image) ⟨k.pmm, dirs⟩
      (spaceCalls active (k'.procs proc).pageDirectory stackSize phys)
      ⟨k'.pmm, (k'.procs proc).pageDirectory :: dirs⟩ := by
  generalize hr : proc = r at h
  cases h with
  | noStack => exact absurd hr hproc
  | noTable => exact absurd hr hproc
  | @done dirPhys phys s s' hbuilt hz hmap =>
    subst hr
    have hpages := (hbuilt.stack h0).2
    obtain ⟨s₁, s₂, hdir, hclone, hstack⟩ := hbuilt
    have h₁ := (Pmm.allocPages_grows h0 hdir).used 0 h0
    have h₂ := (clonePageDir_grows
      (s := { s₁ with mem := s₁.mem.fill (kv2p (kp2v dirPhys)) 8192 0 }) h₁ hclone).used 0 h₁
    have hg := Pmm.allocPages_grows h₂ hstack
    have hg' := mapStack_grows (hg.used 0 h₂) hmap
    rw [createProcFinish_eq] at hok ⊢
    have hparts : s'.failed = false ∧ ((Mm.kmalloc k.heap 8192).2 == 0) = false := by
      simpa [Kernel.kmalloc, Kernel.withSpace] using hok
    have hend : ((k.withSpace proc (kp2v dirPhys) stackSize s').kmalloc 8192).1.pmm = s' := by
      simp [Kernel.kmalloc, Kernel.withSpace, hparts.2]
    have hdirs : (Function.update (k.withSpace proc (kp2v dirPhys) stackSize s').procs proc
        (finishedProc ((k.withSpace proc (kp2v dirPhys) stackSize s').procs proc) entry
          (Mm.kmalloc (k.withSpace proc (kp2v dirPhys) stackSize s').heap 8192).2) proc).pageDirectory =
        kp2v dirPhys := by
      simp [Kernel.withSpace, finishedProc, spaceProc]
    dsimp only at hend hdirs ⊢
    rw [hend, hdirs]
    refine ⟨phys, ?_⟩
    have hmade : SpaceStep image ⟨k.pmm, dirs⟩ (.clone active) ⟨s₂, kp2v dirPhys :: dirs⟩ := by
      rw [← hcr3] at hclone
      exact ⟨hactive, s₁, dirPhys, s₂, hdir, hclone, (hg.trans hg').not_failed hparts.1, rfl⟩
    have htaken : SpaceStep image ⟨s₂, kp2v dirPhys :: dirs⟩
        (.alloc pmmFlagsHighmem (stackPages stackSize)) ⟨s, kp2v dirPhys :: dirs⟩ :=
      ⟨s, phys, hz, hstack, rfl⟩
    unfold mapStack at hmap
    rw [if_neg hpages] at hmap
    have hmapped : SpaceStep image ⟨s, kp2v dirPhys :: dirs⟩
        (.mapPages (kp2v dirPhys) (stackBottomAl stackSize) phys (stackPages stackSize) true)
        ⟨s', kp2v dirPhys :: dirs⟩ := ⟨List.mem_cons_self, hrange, s', hmap, rfl⟩
    exact .cons hmade (.cons htaken (.single hmapped))

/-- The two views agree after every run: a present entry's pointer is that of its frame, and
`user_addr_accessible` grants an address exactly where it is below 3 GiB and the processor's
walk from the directory grants user mode a read. -/
theorem two_views_agree {calls : List SpaceCall} {proc : Proc} (hpaged : Paged image s)
    (hrun : Run (SpaceStep image) ⟨s, [image.dir]⟩ calls t) (hproc : proc.pageDirectory ∈ t.dirs) :
    (∀ i < 1024, (getDirEntry t.pmm.mem proc.pageDirectory i).present = true →
      getTable t.pmm.mem proc.pageDirectory i =
        kp2v (framePaddr (getDirEntry t.pmm.mem proc.pageDirectory i).frame)) ∧
    ∀ addr, userAddrAccessible t.pmm.mem (some proc) addr = true ↔
      UserReachable t.pmm.mem (kv2p proc.pageDirectory) addr := by
  have hi := SpacesInv.run hpaged hrun
  exact ⟨fun i hi' hpresent => hi.pointer hproc hi' hpresent,
    fun addr => userAddrAccessible_iff (hi.placed _ hproc).nonNull (hi.mirrors hproc) addr⟩

/-- The space of one process, made and mapped. -/
theorem two_views_agree_one_process : ∃ t proc phys,
    Run (SpaceStep sampleImage) ⟨pagedKernel.pmm, [sampleImage.dir]⟩
      (spaceCalls sampleImage.dir proc.pageDirectory 4096 phys) t ∧
    ∀ addr, userAddrAccessible t.pmm.mem (some proc) addr = true ↔
      UserReachable t.pmm.mem (kv2p proc.pageDirectory) addr := by
  have hheap : ((Mm.kmalloc bootHeap 8192).2 == 0) = false := by decide +kernel
  have hspace := pagedKernel_paged.kernelSpace
  obtain ⟨-, framemap, -, htaken, -⟩ := bootFrames_space
  have hproc : (0xC04000A0 : Nat) ≠ 0 := by decide
  have hsome := @createProcDirectory_isSome _ 4096 pagedKernel 0xC04000A0 1 0 hspace sampleImage_linked hproc
    (Option.isSome_iff_exists.2 ⟨_, htaken⟩)
  obtain ⟨⟨k', r⟩, hk'⟩ := Option.isSome_iff_exists.1 hsome
  have hout := createProcDirectory_cases (hspace.reserved 0 (by decide)) hproc hk'
  obtain ⟨gotDir, gotTables, htaken', hr, hfailed⟩ := hout.frames hspace sampleImage_linked
  have htaken₀ : spaceFrames pagedKernel.pmm.framemap 4096 = some (framemap, true, true) := htaken
  have hheap₀ : ((Mm.kmalloc pagedKernel.heap 8192).2 == 0) = false := hheap
  have hfailed₀ : pagedKernel.pmm.failed = false := rfl
  rw [htaken₀] at htaken'
  simp only [Option.some.injEq, Prod.mk.injEq] at htaken'
  obtain ⟨-, rfl, rfl⟩ := htaken'
  rw [if_pos rfl] at hr
  subst hr
  rw [hheap₀, hfailed₀] at hfailed
  have hrange : stackBottomAl 4096 + 4096 * stackPages 4096 ≤ 0xC0000000 := by decide
  obtain ⟨phys, hrun⟩ := hout.spaceRun hproc (hspace.reserved 0 (by decide))
    (List.mem_singleton_self _) rfl hrange hfailed
  exact ⟨_, k'.procs 0xC04000A0, phys, hrun,
    (two_views_agree pagedKernel_paged hrun List.mem_cons_self).2⟩

end Views

end BrownieOS.Process
