import BrownieOS.Lib.PageWords
import BrownieOS.Mm.AddressSpace

/-!
# Directories as frames of words

A page directory is two frames, the hardware's entries and behind them the kernel's
pointers; a page table is one frame. `Mirrored` says that the two views of a directory
name the same table frames. The kernel's own directory and tables lie in the image, below
4 MiB.
-/
namespace BrownieOS.Mm

open BrownieOS.Lib BrownieOS.Lib.Word32

/-- The frames that the identity window reaches, where directories and tables live. -/
abbrev lowFrames : Nat := 0x38000

theorem Page.encode_decode {w : Nat} (h : w < 4294967296) : (Page.decode w).encode = w := by
  simp only [Page.encode, Page.decode, Nat.toNat_testBit, BitVec.toNat_ofNat]
  omega

theorem PageDirEntry.encode_decode {w : Nat} (h : w < 4294967296) :
    (PageDirEntry.decode w).encode = w := by
  simp only [PageDirEntry.encode, PageDirEntry.decode, Nat.toNat_testBit, BitVec.toNat_ofNat]
  omega

/-! ## Kernel pointers to frames -/

section Words

variable {m : Mem} {dir table D T i j v : Nat}

theorem kv2p_kp2v_frame (h : T < lowFrames) : kv2p (kp2v (4096 * T)) = 4096 * T := by
  simp only [lowFrames] at h
  simp only [kv2p, kp2v, wsub, wadd]
  omega

theorem kp2v_lt (x : Nat) : kp2v x < 4294967296 := wadd_lt _ _

theorem kp2v_frame_eq (h : T < lowFrames) : kp2v (4096 * T) = 0xC0000000 + 4096 * T := by
  simp only [lowFrames] at h
  simp only [kp2v, wadd]
  omega

theorem getDirEntry_eq (h : kv2p dir = 4096 * D) (i : Nat) :
    getDirEntry m dir i = .decode (m.word D i) := by
  rw [getDirEntry, h, Mem.word]

theorem putDirEntry_eq (h : kv2p dir = 4096 * D) (i : Nat) (e : PageDirEntry) :
    putDirEntry m dir i e = m.setWord D i e.encode := by
  rw [putDirEntry, h, Mem.setWord]

theorem getTable_eq (h : kv2p dir = 4096 * D) (i : Nat) : getTable m dir i = m.word (D + 1) i := by
  rw [getTable, h, Mem.word, Nat.mul_add]

theorem putTable_eq (h : kv2p dir = 4096 * D) (i v : Nat) :
    putTable m dir i v = m.setWord (D + 1) i v := by
  rw [putTable, h, Mem.setWord, Nat.mul_add]

theorem getPage_eq (h : kv2p table = 4096 * T) (j : Nat) :
    getPage m table j = .decode (m.word T j) := by
  rw [getPage, h, Mem.word]

theorem putPage_eq (h : kv2p table = 4096 * T) (j : Nat) (p : Page) :
    putPage m table j p = m.setWord T j p.encode := by
  rw [putPage, h, Mem.setWord]

end Words

/-! ## The kernel's frames -/

namespace KernelImage

variable (image : KernelImage) {i : Nat}

/-- The frame of the kernel directory's entries. -/
def dirFrame : Nat := image.dirPaddr / 4096

/-- The frame of kernel table `i`. -/
def tableFrame (i : Nat) : Nat := image.tablePaddr i / 4096

/-- The linker script puts every section of the kernel from 1 MiB on. -/
def Linked : Prop := 0xC0100000 ≤ image.dir ∧ 0xC0100000 ≤ image.tables

theorem kv2p_dir : kv2p image.dir = 4096 * image.dirFrame := by
  have h := kv2p_aligned image.dirAligned
  simp only [dirFrame, dirPaddr]
  omega

theorem kv2p_table (i : Nat) (hi₀ : 768 ≤ i) (hi : i < 1024) :
    kv2p (image.table i) = 4096 * image.tableFrame i := by
  obtain ⟨-, h, -⟩ := image.layout hi₀ hi
  simp only [tableFrame, tablePaddr] at *
  omega

theorem table_eq_kp2v (hi₀ : 768 ≤ i) (hi : i < 1024) :
    image.table i = kp2v (4096 * image.tableFrame i) := by
  rw [← image.kv2p_table i hi₀ hi]
  have h := image.tablesInside
  simp only [kp2v, kv2p, wadd, wsub, table_eq]
  omega

theorem frames_low (hi₀ : 768 ≤ i) (hi : i < 1024) :
    image.dirFrame + 1 < 1024 ∧ image.tableFrame i < 1024 ∧
      image.tableFrame i ≠ image.dirFrame ∧ image.tableFrame i ≠ image.dirFrame + 1 := by
  obtain ⟨h₁, h₂, h₃, h₄, h₅⟩ := image.layout hi₀ hi
  simp only [dirFrame, tableFrame]
  omega

theorem tableFrame_inj {i' : Nat} (hi₀ : 768 ≤ i) (hi : i < 1024) (hi₀' : 768 ≤ i') (hi' : i' < 1024)
    (h : image.tableFrame i = image.tableFrame i') : i = i' := by
  have h₁ := image.kv2p_table i hi₀ hi
  have h₂ := image.kv2p_table i' hi₀' hi'
  rw [h, ← h₂, show kv2p (image.table i) = image.tablePaddr i from rfl,
    show kv2p (image.table i') = image.tablePaddr i' from rfl, image.tablePaddr_eq hi,
    image.tablePaddr_eq hi'] at h₁
  omega

end KernelImage

theorem KernelImage.Linked.frames {image : KernelImage} {i : Nat} (h : image.Linked) (hi₀ : 768 ≤ i)
    (hi : i < 1024) :
    256 ≤ image.dirFrame ∧ 256 ≤ image.tableFrame i := by
  have h₁ := image.dirPaddr_eq
  have h₂ := image.tablePaddr_eq hi
  obtain ⟨h₃, h₄⟩ := h
  simp only [dirFrame, tableFrame]
  omega

/-- What matters of the directory is its kernel half. -/
theorem KernelDirectory.of_words {m m' : Mem} {image : KernelImage} (h : KernelDirectory m image)
    (hw : ∀ i, 768 ≤ i → i < 1024 → m'.word image.dirFrame i = m.word image.dirFrame i ∧
      m'.word (image.dirFrame + 1) i = m.word (image.dirFrame + 1) i) : KernelDirectory m' image := by
  have hentry : ∀ i, 768 ≤ i → i < 1024 →
      getDirEntry m' image.dir i = getDirEntry m image.dir i := by
    intro i h₀ h₁
    rw [getDirEntry_eq image.kv2p_dir, getDirEntry_eq image.kv2p_dir, (hw i h₀ h₁).1]
  have htable : ∀ i, 768 ≤ i → i < 1024 → getTable m' image.dir i = getTable m image.dir i := by
    intro i h₀ h₁
    rw [getTable_eq image.kv2p_dir, getTable_eq image.kv2p_dir, (hw i h₀ h₁).2]
  constructor
  · intro i h₀ h₁
    rw [htable i h₀ h₁]
    exact h.pointers i h₀ h₁
  · intro i h₀ h₁
    rw [hentry i h₀ h₁]
    exact h.present i h₀ h₁
  · intro i h₀ h₁
    rw [hentry i h₀ h₁]
    exact h.rw i h₀ h₁
  · intro i h₀ h₁
    rw [hentry i h₀ h₁]
    exact h.frame i h₀ h₁

theorem KernelDirectory.of_sameFrame {m m' : Mem} {image : KernelImage} (h : KernelDirectory m image)
    (hK : m.SameFrame m' image.dirFrame) (hK' : m.SameFrame m' (image.dirFrame + 1)) :
    KernelDirectory m' image :=
  h.of_words fun _ _ hi => ⟨hK.word hi, hK'.word hi⟩

/-! ## Default frames -/

section Default

variable {s s' : Pmm} {count base T : Nat}

theorem Allocated.range {framemap framemap' : FrameMap}
    (h : Allocated framemap framemap' (4096 * T) count) :
    (∀ f, T ≤ f → f < T + count → framemap.test f = false) ∧
      ∀ f, framemap'.test f = (decide (T ≤ f ∧ f < T + count) || framemap.test f) := by
  have hdiv : 4096 * T / 4096 = T := Nat.mul_div_cancel_left T (by decide)
  refine ⟨fun f h₁ h₂ => h.free f (by omega) (by omega), fun f => ?_⟩
  rw [h.marked, Bitmap.test_setRange (by decide), hdiv]

/-- Frames of a default request are low. -/
theorem Pmm.allocPages_low (h0 : s.framemap.test 0 = true) (hc : 0 < count)
    (h : s.allocPages pmmFlagsDefault count = some (s', base)) :
    s'.mem = s.mem ∧ (base = 0 ∧ s'.framemap = s.framemap ∧ s'.failed = true ∨
      ∃ T, base = 4096 * T ∧ T ≠ 0 ∧ T + count ≤ lowFrames ∧
        Allocated s.framemap s'.framemap (4096 * T) count ∧ s'.failed = s.failed) := by
  have hcases := Pmm.allocPages_cases h0 h
  obtain ⟨ha, -⟩ := Pmm.allocPages_eq_some h
  rcases hcases with ⟨rfl, rfl⟩ | ⟨hne, hnew, heq⟩
  · exact ⟨rfl, Or.inl ⟨rfl, rfl, rfl⟩⟩
  · obtain ⟨T, rfl⟩ : ∃ T, base = 4096 * T := ⟨base / 4096, by have := hnew.aligned; omega⟩
    have hlow : T + count ≤ lowFrames := by
      rcases allocPages_lowmem h0 hc ha with hlow | ⟨hz, -⟩
      · simp only [kernIdentityPhysEnd] at hlow
        simp only [lowFrames]
        omega
      · exact absurd hz hne
    exact ⟨by rw [heq], Or.inr ⟨T, rfl, by omega, hlow, hnew, by rw [heq]⟩⟩

/-- A page table is refused only when no low frame is left. -/
theorem Pmm.allocPages_none (h0 : s.framemap.test 0 = true)
    (h : s.allocPages pmmFlagsDefault 1 = some (s', 0)) :
    ∀ f < lowFrames, s.framemap.test f = true :=
  allocPages_exhausted (Pmm.allocPages_eq_some h).1 h0

/-- A highmem request that returns has got its frames, at least one. -/
theorem Pmm.allocPages_highmem (h0 : s.framemap.test 0 = true)
    (h : s.allocPages pmmFlagsHighmem count = some (s', base)) :
    base ≠ 0 ∧ 0 < count ∧ Allocated s.framemap s'.framemap base count ∧
      s' = { s with framemap := s'.framemap } := by
  obtain ⟨ha, -⟩ := Pmm.allocPages_eq_some h
  have hne := allocPages_highmem_ne_zero h0 ha
  rcases Pmm.allocPages_cases h0 h with ⟨hz, -⟩ | ⟨-, hnew, heq⟩
  · exact absurd hz hne
  · exact ⟨hne, allocPages_count_pos h0 ha hne, hnew, heq⟩

end Default

/-! ## Two views of one directory -/

/-- Every present entry among `I` of the directory in frame `D` names one table in both
views, and the table's frame satisfies `P`. -/
def Mirrored (m : Mem) (D : Nat) (I P : Nat → Prop) : Prop :=
  ∀ i < 1024, I i → (PageDirEntry.decode (m.word D i)).present = true →
    ∃ T < lowFrames, P T ∧ m.word (D + 1) i = kp2v (4096 * T) ∧
      (PageDirEntry.decode (m.word D i)).frame.toNat = T

theorem Mirrored.of_sameFrame {m m' : Mem} {D : Nat} {I P : Nat → Prop} (h : Mirrored m D I P)
    (hD : m.SameFrame m' D) (hD' : m.SameFrame m' (D + 1)) : Mirrored m' D I P := by
  intro i hi hI hp
  rw [hD.word hi] at hp ⊢
  rw [hD'.word hi]
  exact h i hi hI hp

theorem Mirrored.mono {m : Mem} {D : Nat} {I I' P P' : Nat → Prop} (h : Mirrored m D I P)
    (hI : ∀ i, I' i → I i) (hP : ∀ T, P T → P' T) : Mirrored m D I' P' := by
  intro i hi hI' hp
  obtain ⟨T, hT, hPT, h₁, h₂⟩ := h i hi (hI i hI') hp
  exact ⟨T, hT, hP T hPT, h₁, h₂⟩

/-! ## Cloning a directory with an empty user half -/

/-- No entry below 3 GiB names a frame. -/
def EmptyUserHalf (m : Mem) (D : Nat) : Prop :=
  ∀ i < 768, (PageDirEntry.decode (m.word D i)).frame = 0

/-- The kernel half of `K`, from entry `lo` up to `hi`, is copied into `D`. -/
structure KernelHalfCopied (K D lo hi : Nat) (m m' : Mem) : Prop where
  entries : ∀ i < 1024, m'.word D i = if 768 ≤ i ∧ lo ≤ i ∧ i < hi then m.word K i else m.word D i
  pointers : ∀ i < 1024, m'.word (D + 1) i =
    if 768 ≤ i ∧ lo ≤ i ∧ i < hi then m.word (K + 1) i else m.word (D + 1) i
  others : ∀ f, f ≠ D → f ≠ D + 1 → m.SameFrame m' f

section Clone

variable {kdir cr3 src dest K D i n : Nat} {s : Pmm}

/-- The two frames of one directory are apart from those of another. -/
structure DirectoriesApart (K D : Nat) : Prop where
  entries : K ≠ D
  below : K ≠ D + 1
  above : K + 1 ≠ D

theorem cloneTable_kernel (hsrc : kv2p src = 4096 * K) (hdest : kv2p dest = 4096 * D)
    (ha : DirectoriesApart K D) (hempty : EmptyUserHalf s.mem K) (hi : i < 1024) :
    ∃ m', cloneTable kdir cr3 src dest i s = some { s with mem := m' } ∧
      KernelHalfCopied K D i (i + 1) s.mem m' := by
  obtain ⟨h₁, h₂, h₃⟩ := ha
  by_cases hkern : 768 ≤ i
  · refine ⟨(s.mem.setWord D i (s.mem.word K i)).setWord (D + 1) i (s.mem.word (K + 1) i), ?_, ?_⟩
    · have hword : (s.mem.setWord D i (s.mem.word K i)).word (K + 1) i = s.mem.word (K + 1) i :=
        Mem.word_setWord_of_ne _ _ hi hi (Or.inl h₃)
      unfold cloneTable
      simp only [ge_iff_le, kernStartTbl, hkern, ↓reduceIte, putDirEntry_eq hdest,
        getDirEntry_eq hsrc, putTable_eq hdest, getTable_eq hsrc,
        PageDirEntry.encode_decode (Mem.word_lt _ _ _), hword]
    · have hw := Mem.word_lt s.mem K i
      have hw' := Mem.word_lt s.mem (K + 1) i
      constructor
      · intro l hl
        rw [Mem.word_setWord_of_ne _ _ hi hl (Or.inl (by omega)), Mem.word_setWord _ hi hl hw]
        by_cases he : l = i
        · rw [if_pos ⟨rfl, he⟩, if_pos (by omega), he]
        · rw [if_neg (by omega), if_neg (by omega)]
      · intro l hl
        rw [Mem.word_setWord _ hi hl hw', Mem.word_setWord_of_ne _ _ hi hl (Or.inl (by omega))]
        by_cases he : l = i
        · rw [if_pos ⟨rfl, he⟩, if_pos (by omega), he]
        · rw [if_neg (by omega), if_neg (by omega)]
      · intro f hf hf'
        exact (Mem.sameFrame_setWord _ _ hi hf).trans (Mem.sameFrame_setWord _ _ hi hf')
  · refine ⟨s.mem, ?_, ?_⟩
    · have hz := hempty i (by omega)
      unfold cloneTable
      rw [if_neg (by simp only [kernStartTbl]; omega), getDirEntry_eq hsrc, hz]
      simp
    · refine ⟨fun l hl => ?_, fun l hl => ?_, fun f _ _ => .refl _ f⟩
      · rw [if_neg (by omega)]
      · rw [if_neg (by omega)]

theorem KernelHalfCopied.trans {m m' m'' : Mem} {lo mid hi : Nat} (ha : DirectoriesApart K D)
    (hlo : lo ≤ mid) (hhi : mid ≤ hi) (h : KernelHalfCopied K D lo mid m m')
    (h' : KernelHalfCopied K D mid hi m' m'') : KernelHalfCopied K D lo hi m m'' := by
  obtain ⟨h₁, h₂, h₃⟩ := ha
  constructor
  · intro i hi
    rw [h'.entries i hi, h.entries i hi, (h.others K h₁ h₂).word hi]
    split
    · rw [if_pos (by omega)]
    · split
      · rw [if_pos (by omega)]
      · rw [if_neg (by omega)]
  · intro i hi
    rw [h'.pointers i hi, h.pointers i hi, (h.others (K + 1) h₃ (by omega)).word hi]
    split
    · rw [if_pos (by omega)]
    · split
      · rw [if_pos (by omega)]
      · rw [if_neg (by omega)]
  · intro f hf hf'
    exact (h.others f hf hf').trans (h'.others f hf hf')

theorem cloneTablesFrom_kernel (hsrc : kv2p src = 4096 * K) (hdest : kv2p dest = 4096 * D)
    (ha : DirectoriesApart K D) (hempty : EmptyUserHalf s.mem K) (hn : i + n ≤ 1024) :
    ∃ m', cloneTablesFrom kdir cr3 src dest i n s = some { s with mem := m' } ∧
      KernelHalfCopied K D i (i + n) s.mem m' := by
  induction n generalizing i s with
  | zero =>
    refine ⟨s.mem, rfl, fun l hl => ?_, fun l hl => ?_, fun f _ _ => .refl _ f⟩
    · rw [if_neg (by omega)]
    · rw [if_neg (by omega)]
  | succ n ih =>
    obtain ⟨m₁, hstep, hcopy⟩ := cloneTable_kernel hsrc hdest ha hempty
      (show i < 1024 by omega)
    have hempty₁ : EmptyUserHalf m₁ K := by
      intro l hl
      rw [(hcopy.others K ha.entries ha.below).word (by omega)]
      exact hempty l hl
    obtain ⟨m₂, hrest, hcopy₂⟩ := ih (s := { s with mem := m₁ }) (i := i + 1) hempty₁ (by omega)
    refine ⟨m₂, ?_, ?_⟩
    · rw [cloneTablesFrom, hstep]
      exact hrest
    · have hlast : i + 1 + n = i + (n + 1) := by omega
      rw [hlast] at hcopy₂
      exact hcopy.trans ha (by omega) (by omega) hcopy₂

/-- With nothing in the user half, a clone is a copy of the kernel half: it allocates nothing. -/
theorem clonePageDir_kernel (hsrc : kv2p src = 4096 * K) (hdest : kv2p dest = 4096 * D)
    (ha : DirectoriesApart K D) (hempty : EmptyUserHalf s.mem K) :
    ∃ m', clonePageDir kdir cr3 src dest s = some { s with mem := m' } ∧
      KernelHalfCopied K D 0 1024 s.mem m' :=
  cloneTablesFrom_kernel hsrc hdest ha hempty (by omega)

end Clone

end BrownieOS.Mm
