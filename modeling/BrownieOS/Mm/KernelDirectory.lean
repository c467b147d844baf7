import BrownieOS.Mm.PageTables

/-!
# The kernel directory that `setup_kernel_directory` builds

`KernelDirectory` is what every later user of the kernel half relies on: the table
pointers and the directory entries above 3 GiB. `PageMapped` is one page of the
identity window. The two loops establish both.
-/
namespace BrownieOS.Mm

open BrownieOS.Lib BrownieOS.Lib.Word32

/-! ## One entry read after another is written -/

section Entries

variable {m : Mem} {t t' d d' i j j' v : Nat}

@[simp] theorem kv2p_aligned {x : Nat} (h : x % 4096 = 0) : kv2p x % 4096 = 0 := by
  simp only [kv2p, wsub]
  omega

theorem getPage_putPage_self (p : Page) : getPage (putPage m t j p) t j = p := by
  rw [getPage, putPage, Mem.get32_set32_self _ _ p.encode_lt, Page.decode_encode]

theorem getDirEntry_putDirEntry_self (e : PageDirEntry) :
    getDirEntry (putDirEntry m d i e) d i = e := by
  rw [getDirEntry, putDirEntry, Mem.get32_set32_self _ _ e.encode_lt, PageDirEntry.decode_encode]

theorem getTable_putTable_self (h : t < 4294967296) : getTable (putTable m d i t) d i = t := by
  rw [getTable, putTable, Mem.get32_set32_self _ _ h]

end Entries

namespace KernelImage

variable (image : KernelImage) {i j : Nat}

/-- The physical address of the directory. -/
def dirPaddr : Nat := kv2p image.dir

/-- The physical address of kernel table `i`. -/
def tablePaddr (i : Nat) : Nat := kv2p (image.table i)

theorem dirPaddr_eq : image.dirPaddr = image.dir - 0xC0000000 := by
  have h := image.dirInside
  simp only [dirPaddr, kv2p]
  exact wsub_of_le (by omega) (by omega)

theorem table_eq (i : Nat) : image.table i = image.tables + 4096 * (i - 768) := rfl

theorem tablePaddr_eq (hi : i < 1024) :
    image.tablePaddr i = image.tables - 0xC0000000 + 4096 * (i - 768) := by
  have h := image.tablesInside
  rw [tablePaddr, table_eq, kv2p, wsub_of_le (by omega) (by omega)]
  omega

/-- The directory and the tables do not overlap, and lie in the first 4 MiB. -/
theorem layout (hi₀ : 768 ≤ i) (hi : i < 1024) : image.dirPaddr % 4096 = 0 ∧
    image.tablePaddr i % 4096 = 0 ∧ image.dirPaddr + 8192 ≤ 0x400000 ∧
    image.tablePaddr i + 4096 ≤ 0x400000 ∧
    (image.dirPaddr + 8192 ≤ image.tablePaddr i ∨ image.tablePaddr i + 4096 ≤ image.dirPaddr) := by
  have h₁ := image.dirAligned
  have h₂ := image.tablesAligned
  have h₃ := image.dirInside
  have h₄ := image.tablesInside
  have h₅ := image.apart
  rw [dirPaddr_eq, tablePaddr_eq image hi]
  omega

/-- Different tables are a page apart. -/
theorem tables_apart {i' : Nat} (hi₀ : 768 ≤ i) (hi : i < 1024) (hi₀' : 768 ≤ i') (hi' : i' < 1024)
    (h : i' < i) : image.tablePaddr i' + 4096 ≤ image.tablePaddr i := by
  rw [tablePaddr_eq image hi, tablePaddr_eq image hi']
  omega

end KernelImage

/-- The pointers and the directory entries of the kernel half. -/
structure KernelDirectory (m : Mem) (image : KernelImage) : Prop where
  pointers : ∀ i, 768 ≤ i → i < 1024 → getTable m image.dir i = image.table i
  present : ∀ i, 768 ≤ i → i < 1024 → (getDirEntry m image.dir i).present = true
  rw : ∀ i, 768 ≤ i → i < 1024 → (getDirEntry m image.dir i).rw = true
  frame : ∀ i, 768 ≤ i → i < 1024 →
    framePaddr (getDirEntry m image.dir i).frame = image.tablePaddr i

/-- Page `j` of table `i` maps the frame the identity window has there, for writing. -/
structure PageMapped (m : Mem) (image : KernelImage) (i j : Nat) : Prop where
  present : (getPage m (image.table i) j).present = true
  rw : (getPage m (image.table i) j).rw = true
  frame : (getPage m (image.table i) j).frame.toNat = (i - 768) * 1024 + j

variable {m m' : Mem} {image : KernelImage}

/-- Writes outside the directory do not touch it. -/
theorem KernelDirectory.of_agree {lo hi : Nat} (h : KernelDirectory m image)
    (hm : Mem.AgreeOff m m' lo hi)
    (hoff : image.dirPaddr + 8192 ≤ lo ∨ hi ≤ image.dirPaddr) : KernelDirectory m' image := by
  have hentry : ∀ i < 1024, getDirEntry m' image.dir i = getDirEntry m image.dir i := by
    intro i hi
    rw [getDirEntry, getDirEntry, hm.get32]
    simp only [KernelImage.dirPaddr] at hoff
    omega
  have htable : ∀ i < 1024, getTable m' image.dir i = getTable m image.dir i := by
    intro i hi
    rw [getTable, getTable, hm.get32]
    simp only [KernelImage.dirPaddr] at hoff
    omega
  constructor
  · intro i h₀ h₁
    rw [htable i h₁]
    exact h.pointers i h₀ h₁
  · intro i h₀ h₁
    rw [hentry i h₁]
    exact h.present i h₀ h₁
  · intro i h₀ h₁
    rw [hentry i h₁]
    exact h.rw i h₀ h₁
  · intro i h₀ h₁
    rw [hentry i h₁]
    exact h.frame i h₀ h₁

theorem PageMapped.of_agree {lo hi i j : Nat} (h : PageMapped m image i j)
    (hm : Mem.AgreeOff m m' lo hi) (hoff : image.tablePaddr i + 4 * j + 4 ≤ lo ∨
      hi ≤ image.tablePaddr i + 4 * j) : PageMapped m' image i j := by
  have hpage : getPage m' (image.table i) j = getPage m (image.table i) j := by
    rw [getPage, getPage]
    exact congrArg Page.decode (hm.get32 hoff)
  constructor
  · rw [hpage]; exact h.present
  · rw [hpage]; exact h.rw
  · rw [hpage]; exact h.frame

/-! ## The two loops -/

/-- The first `n` pages of a table of the window are mapped; nothing else is written. -/
theorem setupPages_spec {i : Nat} (hi₀ : 768 ≤ i) (hi : i < 1024) : ∀ n, n ≤ 1024 →
    Mem.AgreeOff m (setupPages m (image.table i) i n) (image.tablePaddr i)
      (image.tablePaddr i + 4 * n) ∧
    (i < 992 → ∀ j < n, PageMapped (setupPages m (image.table i) i n) image i j) ∧
    (992 ≤ i → setupPages m (image.table i) i n = m) := by
  intro n
  induction n with
  | zero => exact fun _ => ⟨.refl _ _ _, fun _ j hj => absurd hj (Nat.not_lt_zero j), fun _ => rfl⟩
  | succ n ih =>
    intro hn
    obtain ⟨hoff, hmapped, hhigh⟩ := ih (by omega)
    by_cases hw : i < 992
    · simp only [setupPages, kernHighmemStartTbl, if_pos hw]
      have hoff' := hoff.mono (Nat.le_refl _)
        (show _ ≤ image.tablePaddr i + 4 * (n + 1) by omega)
      refine ⟨hoff'.set32 _ (Nat.le_add_right _ _) (by simp only [KernelImage.tablePaddr]; omega),
        fun _ j hj => ?_, fun h => by omega⟩
      by_cases hlast : j = n
      · subst hlast
        constructor
        · rw [getPage_putPage_self]
        · rw [getPage_putPage_self]
        · rw [getPage_putPage_self]
          simp only [BitVec.toNat_ofNat, kernStartTbl]
          omega
      · refine (hmapped hw j (by omega)).of_agree ((Mem.AgreeOff.refl _ (image.tablePaddr i + 4 * n)
          (image.tablePaddr i + 4 * n + 4)).set32 _ (Nat.le_refl _) (Nat.le_refl _)) (by omega)
    · simp only [setupPages, kernHighmemStartTbl, if_neg hw]
      exact ⟨hoff.mono (Nat.le_refl _) (by omega), fun h => absurd h hw, hhigh⟩

/-- What the first `n` turns of the outer loop have set up, and what they left alone. -/
structure TablesSetUp (m₀ m : Mem) (image : KernelImage) (n : Nat) : Prop where
  pointers : ∀ i, 768 ≤ i → i < 768 + n → getTable m image.dir i = image.table i
  entries : ∀ i, 768 ≤ i → i < 768 + n → (getDirEntry m image.dir i).present = true ∧
    (getDirEntry m image.dir i).rw = true ∧
    framePaddr (getDirEntry m image.dir i).frame = image.tablePaddr i
  window : ∀ i, 768 ≤ i → i < 768 + n → i < 992 → ∀ j < 1024, PageMapped m image i j
  userHalf : ∀ i < 768, m.get32 (image.dirPaddr + 4 * i) = m₀.get32 (image.dirPaddr + 4 * i)
  highmem : ∀ i, 992 ≤ i → i < 1024 → ∀ j < 1024,
    m.get32 (image.tablePaddr i + 4 * j) = m₀.get32 (image.tablePaddr i + 4 * j)

theorem setupTables_spec : ∀ n, n ≤ 256 → TablesSetUp m (setupTables image m n) image n := by
  intro n
  induction n with
  | zero =>
    exact fun _ => ⟨fun i _ _ => by omega, fun i _ _ => by omega, fun i _ _ => by omega,
      fun _ _ => rfl, fun _ _ _ _ _ => rfl⟩
  | succ n ih =>
    intro hn
    have hs := ih (by omega)
    obtain ⟨hda, hta, hdl, htl, happ⟩ := image.layout (i := 768 + n) (by omega) (by omega)
    have htable : image.table (768 + n) < 4294967296 := by
      have := image.tablesInside
      rw [KernelImage.table_eq]
      omega
    -- the two writes to the directory, then the pages of the table
    obtain ⟨m₀, hm₀⟩ : ∃ m₀, m₀ = setupTables image m n := ⟨_, rfl⟩
    obtain ⟨m₁, hm₁⟩ : ∃ m₁, m₁ = putTable m₀ image.dir (768 + n) (image.table (768 + n)) := ⟨_, rfl⟩
    obtain ⟨e, he⟩ : ∃ e : PageDirEntry, e = { getDirEntry m₁ image.dir (768 + n) with
      frame := BitVec.ofNat 20 (wsub (image.table (768 + n)) 0xC0000000 / pageSize)
      present := true, rw := true } := ⟨_, rfl⟩
    obtain ⟨m₂, hm₂⟩ : ∃ m₂, m₂ = putDirEntry m₁ image.dir (768 + n) e := ⟨_, rfl⟩
    have hstep : setupTables image m (n + 1) = setupPages m₂ (image.table (768 + n)) (768 + n) 1024 := by
      rw [hm₂, he, hm₁, hm₀]
      rfl
    rw [← hm₀] at hs
    obtain ⟨hoff, hmapped, hhigh⟩ := setupPages_spec (m := m₂) (i := 768 + n) (by omega)
      (by omega) 1024 (Nat.le_refl _)
    rw [← hstep] at hoff hmapped hhigh
    have hframe : framePaddr e.frame = image.tablePaddr (768 + n) := by
      rw [he]
      show framePaddr (BitVec.ofNat 20 (image.tablePaddr (768 + n) / 4096)) = _
      simp only [framePaddr, BitVec.toNat_ofNat]
      omega
    have hoff₁ : Mem.AgreeOff m₀ m₁ (image.dirPaddr + 4096 + 4 * (768 + n))
        (image.dirPaddr + 4096 + 4 * (768 + n) + 4) := by
      rw [hm₁]
      exact (Mem.AgreeOff.refl _ _ _).set32 _ (Nat.le_refl _) (Nat.le_refl _)
    have hoff₂ : Mem.AgreeOff m₁ m₂ (image.dirPaddr + 4 * (768 + n))
        (image.dirPaddr + 4 * (768 + n) + 4) := by
      rw [hm₂]
      exact (Mem.AgreeOff.refl _ _ _).set32 _ (Nat.le_refl _) (Nat.le_refl _)
    have hdirT : ∀ i < 1024, getTable (setupTables image m (n + 1)) image.dir i =
        getTable m₁ image.dir i := by
      intro i hi
      simp only [KernelImage.dirPaddr] at *
      rw [getTable, getTable, hoff.get32 (by omega), hoff₂.get32 (by omega)]
    have hdirE : ∀ i < 1024, getDirEntry (setupTables image m (n + 1)) image.dir i =
        getDirEntry m₂ image.dir i := by
      intro i hi
      simp only [KernelImage.dirPaddr] at *
      rw [getDirEntry, getDirEntry, hoff.get32 (by omega)]
    constructor
    · intro i h₀ h₁
      rw [hdirT i (by omega)]
      by_cases hlast : i = 768 + n
      · rw [hlast, hm₁, getTable_putTable_self htable]
      · rw [← hs.pointers i h₀ (by omega)]
        simp only [KernelImage.dirPaddr] at *
        rw [getTable, getTable, hoff₁.get32 (by omega)]
    · intro i h₀ h₁
      rw [hdirE i (by omega)]
      by_cases hlast : i = 768 + n
      · rw [hlast, hm₂, getDirEntry_putDirEntry_self]
        exact ⟨by rw [he], by rw [he], hframe⟩
      · have hkeep : getDirEntry m₂ image.dir i = getDirEntry m₀ image.dir i := by
          simp only [KernelImage.dirPaddr] at *
          rw [getDirEntry, getDirEntry, hoff₂.get32 (by omega), hoff₁.get32 (by omega)]
        rw [hkeep]
        exact hs.entries i h₀ (by omega)
    · intro i h₀ h₁ hw j hj
      by_cases hlast : i = 768 + n
      · rw [hlast]
        exact hmapped (by omega) j hj
      · obtain ⟨-, hta', -, htl', happ'⟩ := image.layout (i := i) h₀ (by omega)
        have hbelow := image.tables_apart (i := 768 + n) (by omega) (by omega) h₀
          (by omega) (by omega)
        have hp := hs.window i h₀ (by omega) hw j hj
        exact ((hp.of_agree hoff₁ (by omega)).of_agree hoff₂ (by omega)).of_agree hoff (by omega)
    · intro i hi
      rw [hoff.get32 (by omega), hoff₂.get32 (by omega), hoff₁.get32 (by omega)]
      exact hs.userHalf i hi
    · intro i h₀ h₁ j hj
      have hlay := image.layout (i := i) (by omega) h₁
      rw [← hs.highmem i h₀ h₁ j hj]
      by_cases hw : 768 + n < 992
      · have habove := @KernelImage.tables_apart image i (768 + n) (by omega) h₁ (by omega)
          (by omega) (by omega)
        rw [hoff.get32 (by omega), hoff₂.get32 (by omega), hoff₁.get32 (by omega)]
      · rw [hhigh (by omega), hoff₂.get32 (by omega), hoff₁.get32 (by omega)]

/-- The kernel directory, and the whole identity window. -/
theorem setupKernelDirectory_spec (image : KernelImage) (m : Mem) :
    KernelDirectory (setupKernelDirectory image m) image ∧
      ∀ i, 768 ≤ i → i < 992 → ∀ j < 1024,
        PageMapped (setupKernelDirectory image m) image i j := by
  have hs := @setupTables_spec m image 256 (Nat.le_refl _)
  refine ⟨⟨fun i h₀ h₁ => hs.pointers i h₀ (by omega), fun i h₀ h₁ => (hs.entries i h₀ (by omega)).1,
    fun i h₀ h₁ => (hs.entries i h₀ (by omega)).2.1,
    fun i h₀ h₁ => (hs.entries i h₀ (by omega)).2.2⟩, fun i h₀ h₁ => ?_⟩
  exact hs.window i h₀ (by omega) h₁

/-- The user half of the directory and the highmem tables are as they were. -/
theorem setupKernelDirectory_kept (image : KernelImage) (m : Mem) :
    (∀ i < 768, (setupKernelDirectory image m).get32 (image.dirPaddr + 4 * i) =
      m.get32 (image.dirPaddr + 4 * i)) ∧
    ∀ i, 992 ≤ i → i < 1024 → ∀ j < 1024,
      (setupKernelDirectory image m).get32 (image.tablePaddr i + 4 * j) =
        m.get32 (image.tablePaddr i + 4 * j) := by
  have hs := @setupTables_spec m image 256 (Nat.le_refl _)
  exact ⟨hs.userHalf, hs.highmem⟩

/-! ## Translation in the kernel half -/

/-- The directory at `cr3` has the entries of the kernel directory above 3 GiB. -/
structure SharesKernelHalf (m : Mem) (image : KernelImage) (cr3 : Nat) : Prop where
  aligned : cr3 % 4096 = 0
  apart : ∀ i, 768 ≤ i → i < 1024 →
    cr3 + 4096 ≤ image.tablePaddr i ∨ image.tablePaddr i + 4096 ≤ cr3
  entries : ∀ i, 768 ≤ i → i < 1024 →
    PageDirEntry.decode (m.get32 (cr3 + 4 * i)) = getDirEntry m image.dir i

theorem sharesKernelHalf_self (m : Mem) (image : KernelImage) :
    SharesKernelHalf m image image.dirPaddr where
  aligned := kv2p_aligned image.dirAligned
  apart := by
    intro i h₀ h₁
    obtain ⟨-, -, -, -, happ⟩ := image.layout h₀ h₁
    omega
  entries := fun _ _ _ => rfl

/-- The walk of a kernel address ends at the entry the kernel itself would read. -/
theorem KernelDirectory.walk_eq (hk : KernelDirectory m image) {cr3 va : Nat}
    (hs : SharesKernelHalf m image cr3) (h₀ : 0xC0000000 ≤ va) (h₁ : va < 4294967296) :
    walk m cr3 va =
      if (getPage m (image.table (pageDirIdx va)) (pageTblIdx va)).present then
        some (getDirEntry m image.dir (pageDirIdx va),
          getPage m (image.table (pageDirIdx va)) (pageTblIdx va))
      else none := by
  have hi₀ : 768 ≤ pageDirIdx va := by simp only [pageDirIdx]; omega
  have hi₁ : pageDirIdx va < 1024 := by simp only [pageDirIdx]; omega
  have hp := hk.present _ hi₀ hi₁
  have hf := hk.frame _ hi₀ hi₁
  have hentry := hs.entries _ hi₀ hi₁
  have hpage : Page.decode (m.get32 (image.tablePaddr (pageDirIdx va) + 4 * pageTblIdx va)) =
      getPage m (image.table (pageDirIdx va)) (pageTblIdx va) := rfl
  simp only [walk, hentry, hp, hf, hpage, ↓reduceIte]

end BrownieOS.Mm
