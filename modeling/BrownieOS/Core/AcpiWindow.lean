import BrownieOS.Core.AcpiTables
import BrownieOS.Mm.Tlb

/-!
# Tables behind one mapped page

`kmap` maps one page, and the readers run over as many bytes as the header of the table
says. What lies behind the page is whatever the next slots of the window still map.
-/
namespace BrownieOS.Core

open BrownieOS.Lib BrownieOS.Lib.Word32 BrownieOS.Mm

/-- The page entry of kernel page `n`, counted from address 0. -/
def kernelPage (image : KernelImage) (m : Mem) (n : Nat) : Page :=
  Page.decode (m.get32 (image.slot (n / 1024) (n % 1024)))

/-- The boot directory while the tables are read: its kernel half is set up, its user half
empty, and a page of the window is there unless a `kunmap` took it out. -/
structure BootDirectory (m : Mem) (image : KernelImage) : Prop where
  directory : KernelDirectory m image
  userHalf : ∀ i < 768, m.get32 (image.dirPaddr + 4 * i) = 0
  window : ∀ i, 768 ≤ i → i < 992 → ∀ j < 1024,
    PageMapped m image i j ∨ m.get32 (image.slot i j) = 0

section Directory

variable {m : Mem} {image : KernelImage} {n o va paddr i j v : Nat}

/-- What the setup builds in cleared memory. -/
theorem bootDirectory_setup (image : KernelImage) (hz : ∀ a, m.get32 a = 0) :
    BootDirectory (setupKernelDirectory image m) image := by
  obtain ⟨hdir, hwin⟩ := setupKernelDirectory_spec image m
  refine ⟨hdir, fun i hi => ?_, fun i h₀ h₁ j hj => Or.inl (hwin i h₀ h₁ j hj)⟩
  rw [(setupKernelDirectory_kept image m).1 i hi, hz]

/-- Writes above the first 4 MiB leave the directory and the tables. -/
theorem BootDirectory.of_agree {m' : Mem} {lo hi : Nat} (h : BootDirectory m image)
    (hm : Mem.AgreeOff m m' lo hi) (hlo : 0x400000 ≤ lo) : BootDirectory m' image := by
  obtain ⟨-, -, hdir, -, -⟩ := image.layout (i := 768) (by decide) (by decide)
  refine ⟨h.directory.of_agree hm (by omega), fun i hi => ?_, fun i h₀ h₁ j hj => ?_⟩
  · rw [hm.get32 (by omega)]
    exact h.userHalf i hi
  · obtain ⟨-, -, -, htable, -⟩ := image.layout (i := i) h₀ (by omega)
    rw [hm.get32 (by simp only [KernelImage.slot]; omega)]
    exact (h.window i h₀ h₁ j hj).imp_left fun hp => hp.of_agree hm (by omega)

theorem BootDirectory.set_slot (h : BootDirectory m image) (hi₀ : 768 ≤ i) (hi : i < 1024)
    (hj : j < 1024) (hv : v < 4294967296) (hwin : i < 992 → v = 0) :
    BootDirectory (m.set32 (image.slot i j) v) image := by
  obtain ⟨-, -, -, -, happ⟩ := image.layout hi₀ hi
  refine ⟨h.directory.set_slot hi₀ hi hj, fun k hk => ?_, fun i' h₀ h₁ j' hj' => ?_⟩
  · rw [Mem.get32_set32_of_apart m v (by simp only [KernelImage.slot]; omega)]
    exact h.userHalf k hk
  · have hword := image.get32_slot (m := m) hi₀ hi hj h₀ (by omega) hj' hv
    by_cases he : i' = i ∧ j' = j
    · rw [if_pos he] at hword
      exact Or.inr (hword.trans (hwin (by omega)))
    · rw [if_neg he] at hword
      rw [hword]
      exact (h.window i' h₀ h₁ j' hj').imp_left fun hp =>
        hp.set_slot hi₀ hi hj h₀ (by omega) hj' hv he

theorem BootDirectory.kmap (h : BootDirectory m image) (paddr : Nat) :
    BootDirectory (kmap image.dir m paddr).1 image := by
  have hres := kmap_result h.directory paddr
  generalize Mm.kmap image.dir m paddr = result at hres
  cases hres with
  | null => exact h
  | identity => exact h
  | slot _ hi₀ hi hj _ => exact h.set_slot (by omega) hi hj (mappedWord_lt _) (by omega)

theorem BootDirectory.kunmap (h : BootDirectory m image) (hv : v < 4294967296) :
    BootDirectory (kunmap image.dir m v) image := by
  by_cases hlow : v < 0xC0000000
  · have hsame : Mm.kunmap image.dir m v = m := by
      rw [Mm.kunmap, if_pos hlow, ite_self]
    rw [hsame]
    exact h
  · rw [kunmap_eq h.directory (by omega) hv]
    exact h.set_slot (by simp only [pageDirIdx]; omega) (by simp only [pageDirIdx]; omega)
      (by simp only [pageTblIdx]; omega) (by decide) fun _ => rfl

/-- The kernel half translates by its page entries. -/
theorem KernelDirectory.translate_page (hk : KernelDirectory m image) (hn₀ : 786432 ≤ n)
    (hn : n < 1048576) (ho : o < 4096) : Mm.translate m image.dirPaddr (4096 * n + o) =
      if (kernelPage image m n).present then some (framePaddr (kernelPage image m n).frame + o)
      else none := by
  have hdi : pageDirIdx (4096 * n + o) = n / 1024 := by simp only [pageDirIdx]; omega
  have hti : pageTblIdx (4096 * n + o) = n % 1024 := by simp only [pageTblIdx]; omega
  have hoff : (4096 * n + o) % 4096 = o := by omega
  have hpage : getPage m (image.table (n / 1024)) (n % 1024) = kernelPage image m n := rfl
  rw [Mm.translate, hk.walk_eq (sharesKernelHalf_self m image) (by omega) (by omega), hdi, hti,
    hpage, hoff]
  split
  · rfl
  · rfl

/-- Nothing is mapped in the user half. -/
theorem BootDirectory.translate_user (h : BootDirectory m image) (hva : va < 0xC0000000) :
    Mm.translate m image.dirPaddr va = none := by
  have hz := h.userHalf (pageDirIdx va) (by simp only [pageDirIdx]; omega)
  have hdec : PageDirEntry.decode 0 =
      ⟨false, false, false, false, false, false, false, false, 0, 0⟩ := by decide
  rw [Mm.translate, walk, hz, hdec]
  rfl

end Directory

/-! ## A table of a given length -/

/-- The `length` bytes from the address that `kmap` gives for `paddr` on are mapped, to
those from `paddr` on. -/
def ReadsWholeTable (image : KernelImage) (m : Mem) (paddr length : Nat) : Prop :=
  ∀ k < length, Mm.translate (kmap image.dir m paddr).1 image.dirPaddr
    (wadd (kmap image.dir m paddr).2 k) = some (paddr + k)

/-- The pages behind kernel page `n`, as far as the table goes, map the frames behind the
first one. -/
def NextPagesMap (image : KernelImage) (m : Mem) (n paddr length : Nat) : Prop :=
  ∀ t, 1 ≤ t → 4096 * t < paddr % 4096 + length → n + t < 1048576 ∧
    (kernelPage image m (n + t)).present = true ∧
      (kernelPage image m (n + t)).frame.toNat = paddr / 4096 + t

section Length

variable {m : Mem} {image : KernelImage} {paddr length i j k t : Nat}

/-- The address `kmap` gives, byte by byte: page and offset. -/
theorem wadd_slot (hi : i < 1024) (hj : j < 1024) (ht : t = (paddr % 4096 + k) / 4096)
    (hfit : i * 1024 + j + t < 1048576) : wadd (pageIdxVaddr i j (paddr % 4096)) k =
      4096 * (i * 1024 + j + t) + (paddr + k) % 4096 := by
  rw [pageIdxVaddr_eq hi hj (Nat.mod_lt _ (by decide))]
  simp only [wadd]
  omega

/-- The first page behind the last one of the kernel half is page 0. -/
theorem wadd_slot_wraps (hi : i < 1024) (hj : j < 1024)
    (hk : k = 4096 * (1048576 - (i * 1024 + j)) - paddr % 4096) :
    wadd (pageIdxVaddr i j (paddr % 4096)) k = 0 := by
  rw [pageIdxVaddr_eq hi hj (Nat.mod_lt _ (by decide))]
  simp only [wadd]
  omega

/-- `kmap` writes the entry of its own page only. -/
theorem kernelPage_set_slot {n : Nat} (hi₀ : 768 ≤ i) (hi : i < 1024) (hj : j < 1024)
    (hn₀ : 786432 ≤ n) (hn : n < 1048576) : kernelPage image
      (m.set32 (image.slot i j) (mappedWord paddr)) n =
        if n = i * 1024 + j then Page.decode (mappedWord paddr) else kernelPage image m n := by
  have hn₁ : 768 ≤ n / 1024 := by omega
  have hn₂ : n / 1024 < 1024 := by omega
  have hn₃ : n % 1024 < 1024 := by omega
  have hword := image.get32_slot (m := m) hi₀ hi hj hn₁ hn₂ hn₃ (mappedWord_lt paddr)
  rw [kernelPage, hword]
  by_cases he : n = i * 1024 + j
  · rw [if_pos he, if_pos (by omega)]
  · rw [if_neg he, if_neg (by omega), kernelPage]

variable (hb : BootDirectory m image) (hlow : kernIdentityPhysEnd ≤ paddr)
  (hslot : findFreeSlot m image.dir kernHighmemStartTbl 32 = some (i, j))

include hb hlow hslot

theorem nextPagesMap_of_reads (hr : ReadsWholeTable image m paddr length) :
    NextPagesMap image m (i * 1024 + j) paddr length := by
  have hslot' := hslot
  simp only [kernHighmemStartTbl] at hslot'
  obtain ⟨hi₀, hi, hj, -⟩ := findFreeSlot_some _ _ hslot'
  unfold ReadsWholeTable at hr
  rw [kmap_slot hb.directory hslot hlow] at hr
  dsimp only at hr
  have hboot : BootDirectory (m.set32 (image.slot i j) (mappedWord paddr)) image :=
    hb.set_slot (by omega) (by omega) hj (mappedWord_lt _) (by omega)
  intro t ht hlen
  have hfit : i * 1024 + j + t < 1048576 := by
    by_contra hno
    have hread := hr (4096 * (1048576 - (i * 1024 + j)) - paddr % 4096) (by omega)
    rw [wadd_slot_wraps (by omega) hj rfl, hboot.translate_user (by omega)] at hread
    cases hread
  have hread := hr (4096 * t - paddr % 4096) (by omega)
  rw [wadd_slot (t := t) (by omega) hj (by omega) hfit,
    KernelDirectory.translate_page hboot.directory (by omega) hfit (Nat.mod_lt _ (by decide)),
    kernelPage_set_slot (by omega) (by omega) hj (by omega) hfit,
    if_neg (show ¬ i * 1024 + j + t = i * 1024 + j by omega)] at hread
  split at hread
  · rename_i hpres
    refine ⟨hfit, hpres, ?_⟩
    have := Option.some.inj hread
    simp only [framePaddr] at this
    omega
  · cases hread

theorem reads_of_nextPagesMap (hp : paddr < 4294967296)
    (hn : NextPagesMap image m (i * 1024 + j) paddr length) :
    ReadsWholeTable image m paddr length := by
  have hslot' := hslot
  simp only [kernHighmemStartTbl] at hslot'
  obtain ⟨hi₀, hi, hj, -⟩ := findFreeSlot_some _ _ hslot'
  unfold ReadsWholeTable
  rw [kmap_slot hb.directory hslot hlow]
  dsimp only
  intro k hk
  have hdir := hb.directory.set_slot (v := mappedWord paddr) (i := i) (j := j) (by omega)
    (by omega) hj
  obtain ⟨t, ht⟩ : ∃ t, t = (paddr % 4096 + k) / 4096 := ⟨_, rfl⟩
  by_cases h0 : t = 0
  · rw [wadd_slot (t := t) (by omega) hj ht (by omega),
      KernelDirectory.translate_page hdir (by omega) (by omega) (Nat.mod_lt _ (by decide)),
      kernelPage_set_slot (by omega) (by omega) hj (by omega) (by omega),
      if_pos (show i * 1024 + j + t = i * 1024 + j by omega), decode_mappedWord, if_pos rfl]
    simp only [framePaddr, BitVec.toNat_ofNat, pageFrame, Option.some.injEq]
    omega
  · obtain ⟨hfit, hpres, hframe⟩ := hn t (by omega) (by omega)
    rw [wadd_slot (t := t) (by omega) hj ht hfit,
      KernelDirectory.translate_page hdir (by omega) hfit (Nat.mod_lt _ (by decide)),
      kernelPage_set_slot (by omega) (by omega) hj (by omega) hfit,
      if_neg (show ¬ i * 1024 + j + t = i * 1024 + j by omega), if_pos hpres]
    simp only [framePaddr, hframe, Option.some.injEq]
    omega

end Length

/-- All bytes of a highmem table are read exactly when there is a free slot to map it in and
the slots behind that one already map the rest of the table. -/
theorem reads_whole_table_iff {m : Mem} {image : KernelImage} {paddr : Nat}
    (hb : BootDirectory m image) (hlow : kernIdentityPhysEnd ≤ paddr) (hp : paddr < 4294967296)
    (length : Nat) : ReadsWholeTable image m paddr length ↔ length = 0 ∨
      ∃ i j, findFreeSlot m image.dir kernHighmemStartTbl 32 = some (i, j) ∧
        NextPagesMap image m (i * 1024 + j) paddr length := by
  constructor
  · intro hr
    by_cases h0 : length = 0
    · exact Or.inl h0
    cases hslot : findFreeSlot m image.dir kernHighmemStartTbl 32 with
    | none =>
      have hread := hr 0 (by omega)
      rw [kmap_full hslot hlow] at hread
      dsimp only at hread
      rw [show wadd 0 0 = 0 from rfl, hb.translate_user (by decide)] at hread
      cases hread
    | some slot =>
      exact Or.inr ⟨slot.1, slot.2, rfl, nextPagesMap_of_reads hb hlow hslot hr⟩
  · rintro (rfl | ⟨i, j, hslot, hn⟩)
    · exact fun k hk => absurd hk (Nat.not_lt_zero k)
    · exact reads_of_nextPagesMap hb hlow hslot hp hn

/-! ## What the readers get -/

section Readers

variable {m : Mem} {image : KernelImage} {paddr length k va : Nat}

/-- `kmap` writes page tables only. -/
theorem kmap_off (hb : BootDirectory m image) (hk : 0x400000 ≤ k) :
    (kmap image.dir m paddr).1 k = m k := by
  have hres := kmap_result hb.directory paddr
  generalize kmap image.dir m paddr = result at hres
  cases hres with
  | null => rfl
  | identity => rfl
  | @slot i j _ hi₀ hi hj _ =>
    obtain ⟨-, -, -, htable, -⟩ := image.layout (i := i) (by omega) hi
    exact Mem.set32_apply_of_off m _ (by simp only [KernelImage.slot]; omega)

/-- A byte of a table that is read whole. -/
theorem ReadsWholeTable.vbyte (hb : BootDirectory m image) (hlow : kernIdentityPhysEnd ≤ paddr)
    (hr : ReadsWholeTable image m paddr length) (hk : k < length) :
    vbyte image (kmap image.dir m paddr).1 (wadd (kmap image.dir m paddr).2 k) =
      some (m (paddr + k)) := by
  simp only [kernIdentityPhysEnd] at hlow
  rw [Core.vbyte, hr k hk, Option.map_some, kmap_off hb (by omega)]

/-- A word, read byte by byte. -/
theorem vget32_of_vbyte {p : Nat} {m' : Mem}
    (h : ∀ k < length, Core.vbyte image m (wadd va k) = some (m' (p + k))) (hk : k + 4 ≤ length) :
    vget32 image m (wadd va k) = some (m'.get32 (p + k)) := by
  have hnext : ∀ d, wadd (wadd va k) d = wadd va (k + d) := by
    intro d
    simp only [wadd]
    omega
  rw [vget32, hnext, hnext, hnext, h k (by omega), h (k + 1) (by omega), h (k + 2) (by omega),
    h (k + 3) (by omega)]
  rfl

/-- `strncmp` on bytes that can all be read. -/
theorem vstrncmp_of_vbyte {b sig : Nat → Byte} {i n : Nat}
    (h : ∀ k, i ≤ k → k < i + n → Core.vbyte image m (wadd va k) = some (b k)) :
    vstrncmp image m va sig i n = some (LibC.strncmpLoop b sig i n) := by
  induction n generalizing i with
  | zero => rfl
  | succ n ih =>
    rw [vstrncmp, h i (Nat.le_refl i) (by omega), LibC.strncmpLoop]
    dsimp only
    split
    · rfl
    · split
      · rfl
      · exact ih fun k h₁ h₂ => h k (by omega) (by omega)

end Readers

/-! ## Where the address of `kmap` leads -/

section Kmap

variable {m : Mem} {image : KernelImage} {p : Nat}

theorem kmap_lt (image : KernelImage) (m : Mem) (p : Nat) : (kmap image.dir m p).2 < 4294967296 := by
  unfold kmap
  split
  · exact Nat.zero_lt_succ _
  · split
    · exact wadd_lt _ _
    · split
      · exact wadd_lt _ _
      · exact Nat.zero_lt_succ _

/-- A window page that was taken out is not mapped. -/
theorem BootDirectory.translate_cleared (hb : BootDirectory m image) (hlow : p < kernIdentityPhysEnd)
    (hzero : m.get32 (image.slot (768 + p / 4194304) (p / 4096 % 1024)) = 0) :
    Mm.translate m image.dirPaddr (kp2v p) = none := by
  have hkp := kp2v_eq hlow
  simp only [kernIdentityPhysEnd] at hlow
  have hidx : kp2v p / 4096 / 1024 = 768 + p / 4194304 := by omega
  have hidx' : kp2v p / 4096 % 1024 = p / 4096 % 1024 := by omega
  have hword : kernelPage image m (kp2v p / 4096) = Page.decode 0 := by
    rw [kernelPage, hidx, hidx', hzero]
  have htr := KernelDirectory.translate_page hb.directory (n := kp2v p / 4096)
    (o := kp2v p % 4096) (by omega) (by omega) (Nat.mod_lt _ (by decide))
  rwa [Nat.div_add_mod, hword, decode_zero, if_neg (by decide)] at htr

/-- What `kmap` gives, where it is mapped at all, is mapped to the table. -/
theorem BootDirectory.translate_kmap (hb : BootDirectory m image) (h0 : p ≠ 0)
    (hp : p < 4294967296)
    (hq : ∃ q, Mm.translate (Mm.kmap image.dir m p).1 image.dirPaddr (Mm.kmap image.dir m p).2 = some q) :
    Mm.translate (Mm.kmap image.dir m p).1 image.dirPaddr (Mm.kmap image.dir m p).2 = some p := by
  obtain ⟨q, hq⟩ := hq
  by_cases hlow : p < kernIdentityPhysEnd
  · have hmap : Mm.kmap image.dir m p = (m, kp2v p) := by
      rw [Mm.kmap, if_neg h0, if_pos hlow]
    rw [hmap] at hq ⊢
    dsimp only at hq ⊢
    rcases hb.window (768 + p / 4194304) (by omega) (by simp only [kernIdentityPhysEnd] at hlow; omega)
      (p / 4096 % 1024) (by omega) with hpage | hzero
    · exact (hpage.identityMapped hb.directory hlow).1
    · rw [hb.translate_cleared hlow hzero] at hq
      cases hq
  · have hhigh : kernIdentityPhysEnd ≤ p := Nat.le_of_not_lt hlow
    cases hslot : findFreeSlot m image.dir kernHighmemStartTbl 32 with
    | none =>
      rw [kmap_full hslot hhigh] at hq
      dsimp only at hq
      rw [hb.translate_user (by decide)] at hq
      cases hq
    | some slot =>
      have hreads : ReadsWholeTable image m p 1 := reads_of_nextPagesMap hb hhigh hslot hp
        fun t ht hlen => by omega
      have hread := hreads 0 (by decide)
      have hlt := kmap_lt image m p
      rwa [wadd_of_lt (by omega), Nat.add_zero, Nat.add_zero] at hread

/-- There is a page for `kmap` to give: that of the window, or a free slot for highmem. -/
def KmapReaches (image : KernelImage) (m : Mem) (p : Nat) : Prop :=
  p ≠ 0 ∧ if p < kernIdentityPhysEnd then (kernelPage image m (786432 + p / 4096)).present = true
    else findFreeSlot m image.dir kernHighmemStartTbl 32 ≠ none

/-- Where there is none, the address that `kmap` gives is not mapped. -/
theorem BootDirectory.kmap_reaches_iff (hb : BootDirectory m image) (hp : p < 4294967296) :
    (∃ q, Mm.translate (Mm.kmap image.dir m p).1 image.dirPaddr (Mm.kmap image.dir m p).2 = some q) ↔
      KmapReaches image m p := by
  unfold KmapReaches
  by_cases h0 : p = 0
  · subst h0
    refine iff_of_false ?_ fun h => h.1 rfl
    rintro ⟨q, hq⟩
    have hnone : Mm.translate m image.dirPaddr 0 = none := hb.translate_user (by decide)
    have hsome : Mm.translate m image.dirPaddr 0 = some q := hq
    rw [hnone] at hsome
    cases hsome
  by_cases hlow : p < kernIdentityPhysEnd
  · have hkp := kp2v_eq hlow
    have hlt := hlow
    simp only [kernIdentityPhysEnd] at hlt
    have hpage := KernelDirectory.translate_page hb.directory (n := 786432 + p / 4096)
      (o := p % 4096) (by omega) (by omega) (Nat.mod_lt _ (by decide))
    rw [show 4096 * (786432 + p / 4096) + p % 4096 = kp2v p by omega] at hpage
    rw [if_pos hlow, Mm.kmap, if_neg h0, if_pos hlow, hpage]
    split
    · rename_i hpres
      exact iff_of_true ⟨_, rfl⟩ ⟨h0, hpres⟩
    · rename_i hgone
      refine iff_of_false ?_ fun h => hgone h.2
      rintro ⟨q, hq⟩
      cases hq
  · have hhigh : kernIdentityPhysEnd ≤ p := Nat.le_of_not_lt hlow
    rw [if_neg hlow]
    cases hslot : findFreeSlot m image.dir kernHighmemStartTbl 32 with
    | none =>
      rw [kmap_full hslot hhigh]
      dsimp only
      rw [hb.translate_user (by decide)]
      refine iff_of_false ?_ fun h => h.2 rfl
      rintro ⟨q, hq⟩
      cases hq
    | some slot =>
      have hone : ReadsWholeTable image m p 1 :=
        reads_of_nextPagesMap hb hhigh hslot hp fun t ht hlen => by omega
      have hread := hone 0 (by decide)
      have hlt := kmap_lt image m p
      rw [wadd_of_lt (by omega), Nat.add_zero] at hread
      exact iff_of_true ⟨_, hread⟩ ⟨h0, Option.some_ne_none _⟩

end Kmap

/-- A table of one page's rest, mapped in a fresh window, is read whole. -/
theorem reads_whole_table_one_page :
    ReadsWholeTable sampleImage (setupKernelDirectory sampleImage fun _ => 0) 0xE0000000 4096 := by
  have hboot := freshDirectory_setup sampleImage get32_zero
  refine (reads_whole_table_iff (bootDirectory_setup sampleImage get32_zero) (by decide) (by decide)
    4096).2 (Or.inr ⟨992, 0, hboot.findFreeSlot, fun t ht hlen => ?_⟩)
  omega

/-- A header that stands 16 bytes before the end of a page is not read past them. -/
theorem reads_whole_table_fails :
    ¬ ReadsWholeTable sampleImage (setupKernelDirectory sampleImage fun _ => 0) 0xE0000FF0 36 := by
  have hboot := freshDirectory_setup sampleImage get32_zero
  intro hr
  have hnext := nextPagesMap_of_reads (bootDirectory_setup sampleImage get32_zero) (by decide)
    hboot.findFreeSlot hr
  have hword := hboot.highmem 992 (by decide) (by decide) 1 (by decide)
  have hpres := (hnext 1 (by decide) (by decide)).2.1
  have hpage : kernelPage sampleImage (setupKernelDirectory sampleImage fun _ => 0)
      (992 * 1024 + 0 + 1) = Page.decode 0 := congrArg Page.decode hword
  rw [hpage, decode_zero] at hpres
  cases hpres

end BrownieOS.Core
