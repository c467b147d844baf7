import BrownieOS.Mm.KernelDirectory

/-!
# Temporary mappings of `mm/vmm.c`

`kmap` answers low addresses by arithmetic and the others with the first page of the
highmem tables whose entry is zero. `kunmap` clears whatever entry the address names.
-/
namespace BrownieOS.Mm

open BrownieOS.Lib BrownieOS.Lib.Word32

/-- The inner loop of `kmap`, with `n` pages left from `j` on. -/
def findFreePage (m : Mem) (table : Nat) : Nat → Nat → Option Nat
  | _, 0 => none
  | j, n + 1 =>
    if m.get32 (kv2p table + 4 * j) = 0 then some j else findFreePage m table (j + 1) n

/-- The outer loop of `kmap`, with `n` tables left from `i` on: the first free slot. -/
def findFreeSlot (m : Mem) (dir : Nat) : Nat → Nat → Option (Nat × Nat)
  | _, 0 => none
  | i, n + 1 =>
    match findFreePage m (getTable m dir i) 0 1024 with
    | some j => some (i, j)
    | none => findFreeSlot m dir (i + 1) n

/-- `kmap`: the memory after the call and the address, 0 on failure. -/
def kmap (dir : Nat) (m : Mem) (paddr : Nat) : Mem × Nat :=
  if paddr = 0 then (m, 0)
  else if paddr < kernIdentityPhysEnd then (m, kp2v paddr)
  else
    match findFreeSlot m dir kernHighmemStartTbl 32 with
    | some (i, j) =>
      (setPage m (getTable m dir i) j (pageFrame paddr) true true false,
        pageIdxVaddr i j (paddr % pageSize))
    | none => (m, 0)

/-- `kunmap`. -/
def kunmap (dir : Nat) (m : Mem) (vaddr : Nat) : Mem :=
  if vaddr = 0 then m
  else if vaddr < 0xC0000000 then m
  else m.set32 (kv2p (getTable m dir (pageDirIdx vaddr)) + 4 * pageTblIdx vaddr) 0

/-! ## The search -/

theorem findFreePage_some {m : Mem} {table k : Nat} : ∀ n j, findFreePage m table j n = some k →
    j ≤ k ∧ k < j + n ∧ m.get32 (kv2p table + 4 * k) = 0 ∧
      ∀ l, j ≤ l → l < k → m.get32 (kv2p table + 4 * l) ≠ 0 := by
  intro n
  induction n with
  | zero => intro j h; simp [findFreePage] at h
  | succ n ih =>
    intro j h
    rw [findFreePage] at h
    split at h
    · rename_i hz
      obtain rfl := Option.some.inj h
      exact ⟨Nat.le_refl _, by omega, hz, fun l h₁ h₂ => by omega⟩
    · rename_i hz
      obtain ⟨h₁, h₂, h₃, h₄⟩ := ih (j + 1) h
      refine ⟨by omega, by omega, h₃, fun l hl hlk => ?_⟩
      by_cases he : l = j
      · rw [he]; exact hz
      · exact h₄ l (by omega) hlk

theorem findFreePage_none {m : Mem} {table : Nat} : ∀ n j, findFreePage m table j n = none →
    ∀ l, j ≤ l → l < j + n → m.get32 (kv2p table + 4 * l) ≠ 0 := by
  intro n
  induction n with
  | zero => intro j _ l h₁ h₂; omega
  | succ n ih =>
    intro j h l h₁ h₂
    rw [findFreePage] at h
    split at h
    · simp at h
    · rename_i hz
      by_cases he : l = j
      · rw [he]; exact hz
      · exact ih (j + 1) h l (by omega) (by omega)

theorem findFreeSlot_some {m : Mem} {dir i' j : Nat} : ∀ n i,
    findFreeSlot m dir i n = some (i', j) →
    i ≤ i' ∧ i' < i + n ∧ j < 1024 ∧ m.get32 (kv2p (getTable m dir i') + 4 * j) = 0 := by
  intro n
  induction n with
  | zero => intro i h; simp [findFreeSlot] at h
  | succ n ih =>
    intro i h
    rw [findFreeSlot] at h
    split at h
    · rename_i k hk
      simp only [Option.some.injEq, Prod.mk.injEq] at h
      obtain ⟨rfl, rfl⟩ := h
      obtain ⟨-, h₂, h₃, -⟩ := findFreePage_some _ _ hk
      exact ⟨Nat.le_refl _, by omega, by omega, h₃⟩
    · obtain ⟨h₁, h₂, h₃⟩ := ih (i + 1) h
      exact ⟨by omega, by omega, h₃⟩

theorem findFreeSlot_none {m : Mem} {dir : Nat} : ∀ n i, findFreeSlot m dir i n = none →
    ∀ i', i ≤ i' → i' < i + n → ∀ j < 1024, m.get32 (kv2p (getTable m dir i') + 4 * j) ≠ 0 := by
  intro n
  induction n with
  | zero => intro i _ i' h₁ h₂; omega
  | succ n ih =>
    intro i h i' h₁ h₂ j hj
    rw [findFreeSlot] at h
    split at h
    · simp at h
    · rename_i hnone
      by_cases he : i' = i
      · rw [he]
        exact findFreePage_none _ _ hnone j (Nat.zero_le _) (by omega)
      · exact ih (i + 1) h i' (by omega) (by omega) j hj

/-- The search looks at the words of the tables it goes through. -/
theorem findFreePage_congr {m m' : Mem} {table : Nat} : ∀ n j,
    (∀ l, j ≤ l → l < j + n → m'.get32 (kv2p table + 4 * l) = m.get32 (kv2p table + 4 * l)) →
    findFreePage m' table j n = findFreePage m table j n := by
  intro n
  induction n with
  | zero => exact fun _ _ => rfl
  | succ n ih =>
    intro j h
    rw [findFreePage, findFreePage, h j (Nat.le_refl j) (by omega),
      ih (j + 1) fun l h₁ h₂ => h l (by omega) (by omega)]

theorem findFreeSlot_congr {m m' : Mem} {dir : Nat} : ∀ n i,
    (∀ l, i ≤ l → l < i + n → getTable m' dir l = getTable m dir l ∧ ∀ j < 1024,
      m'.get32 (kv2p (getTable m dir l) + 4 * j) = m.get32 (kv2p (getTable m dir l) + 4 * j)) →
    findFreeSlot m' dir i n = findFreeSlot m dir i n := by
  intro n
  induction n with
  | zero => exact fun _ _ => rfl
  | succ n ih =>
    intro i h
    obtain ⟨htable, hwords⟩ := h i (Nat.le_refl i) (by omega)
    rw [findFreeSlot, findFreeSlot, htable,
      findFreePage_congr 1024 0 fun l _ hl => hwords l (by omega),
      ih (i + 1) fun l h₁ h₂ => h l (by omega) (by omega)]

/-! ## The addresses handed out -/

section Addresses

variable {i j o : Nat}

theorem pageIdxVaddr_eq (hi : i < 1024) (hj : j < 1024) (ho : o < 4096) :
    pageIdxVaddr i j o = i * 4194304 + j * 4096 + o := by
  simp only [pageIdxVaddr, wadd, wmul]
  omega

theorem pageIdxVaddr_idx (hi : i < 1024) (hj : j < 1024) (ho : o < 4096) :
    pageDirIdx (pageIdxVaddr i j o) = i ∧ pageTblIdx (pageIdxVaddr i j o) = j ∧
      pageIdxVaddr i j o % 4096 = o := by
  rw [pageIdxVaddr_eq hi hj ho]
  simp only [pageDirIdx, pageTblIdx]
  omega

theorem kp2v_eq {p : Nat} (h : p < kernIdentityPhysEnd) : kp2v p = p + 0xC0000000 := by
  simp only [kernIdentityPhysEnd] at h
  exact wadd_of_lt (by omega)

/-- The window keeps frame `p / 4096` in table `768 + p / 2 ^ 22`. -/
theorem kp2v_idx {p : Nat} (h : p < kernIdentityPhysEnd) :
    pageDirIdx (kp2v p) = 768 + p / 4194304 ∧ pageTblIdx (kp2v p) = p / 4096 % 1024 := by
  rw [kp2v_eq h]
  simp only [pageDirIdx, pageTblIdx]
  omega

end Addresses

/-! ## What the calls do to a kernel directory -/

/-- The word of page `j` of kernel table `i`. -/
def KernelImage.slot (image : KernelImage) (i j : Nat) : Nat := image.tablePaddr i + 4 * j

theorem KernelImage.slot_inj (image : KernelImage) {i j i' j' : Nat} (hi₀ : 768 ≤ i) (hi : i < 1024)
    (hj : j < 1024) (hi₀' : 768 ≤ i') (hi' : i' < 1024) (hj' : j' < 1024)
    (h : image.slot i j = image.slot i' j') : i = i' ∧ j = j' := by
  simp only [slot, image.tablePaddr_eq hi, image.tablePaddr_eq hi'] at h
  omega

/-- A slot word is written: other slots and the directory stay. -/
theorem KernelImage.get32_slot (image : KernelImage) {m : Mem} {i j i' j' v : Nat} (hi₀ : 768 ≤ i)
    (hi : i < 1024) (hj : j < 1024) (hi₀' : 768 ≤ i') (hi' : i' < 1024) (hj' : j' < 1024)
    (hv : v < 4294967296) : (m.set32 (image.slot i j) v).get32 (image.slot i' j') =
      if i' = i ∧ j' = j then v else m.get32 (image.slot i' j') := by
  have hal := (image.layout hi₀ hi).2.1
  have hal' := (image.layout hi₀' hi').2.1
  rw [Mem.get32_set32_aligned m (by simp only [slot]; omega) (by simp only [slot]; omega) hv]
  by_cases h : i' = i ∧ j' = j
  · rw [if_pos h, h.1, h.2, if_pos rfl]
  · rw [if_neg h, if_neg fun he => h (image.slot_inj hi₀' hi' hj' hi₀ hi hj he)]

variable {m : Mem} {image : KernelImage}

theorem KernelDirectory.set_slot (hk : KernelDirectory m image) {i j v : Nat} (hi₀ : 768 ≤ i)
    (hi : i < 1024) (hj : j < 1024) : KernelDirectory (m.set32 (image.slot i j) v) image := by
  obtain ⟨-, -, -, -, happ⟩ := image.layout hi₀ hi
  refine hk.of_agree ((Mem.AgreeOff.refl m (image.slot i j) (image.slot i j + 4)).set32 v
    (Nat.le_refl _) (Nat.le_refl _)) ?_
  simp only [KernelImage.slot]
  omega

theorem SharesKernelHalf.set_slot {cr3 : Nat} (hs : SharesKernelHalf m image cr3) {i j v : Nat}
    (hi₀ : 768 ≤ i) (hi : i < 1024) (hj : j < 1024) :
    SharesKernelHalf (m.set32 (image.slot i j) v) image cr3 := by
  have hown := hs.apart i hi₀ hi
  obtain ⟨-, -, -, -, happ⟩ := image.layout hi₀ hi
  refine ⟨hs.aligned, hs.apart, fun k h₀ h₁ => ?_⟩
  rw [getDirEntry, Mem.get32_set32_of_apart m v (by simp only [KernelImage.slot]; omega),
    Mem.get32_set32_of_apart m v (by simp only [KernelImage.slot, KernelImage.dirPaddr] at *; omega)]
  exact hs.entries k h₀ h₁

/-- The page entry that `kmap` writes into a zero slot. -/
def mappedWord (paddr : Nat) : Nat :=
  Page.encode ⟨true, true, false, false, false, 0, BitVec.ofNat 20 (pageFrame paddr)⟩

theorem mappedWord_lt (paddr : Nat) : mappedWord paddr < 4294967296 := Page.encode_lt _

theorem mappedWord_ne_zero (paddr : Nat) : mappedWord paddr ≠ 0 := by
  simp [mappedWord, Page.encode]

theorem decode_mappedWord (paddr : Nat) : Page.decode (mappedWord paddr) =
    ⟨true, true, false, false, false, 0, BitVec.ofNat 20 (pageFrame paddr)⟩ := Page.decode_encode _

theorem decode_zero : Page.decode 0 = ⟨false, false, false, false, false, 0, 0⟩ := by decide

/-- The three ways a `kmap` goes. -/
inductive KmapResult (image : KernelImage) (m : Mem) (paddr : Nat) : Mem × Nat → Prop
  | null : paddr = 0 ∨ kernIdentityPhysEnd ≤ paddr → KmapResult image m paddr (m, 0)
  | identity : 0 < paddr → paddr < kernIdentityPhysEnd → KmapResult image m paddr (m, kp2v paddr)
  | slot {i j : Nat} : kernIdentityPhysEnd ≤ paddr → 992 ≤ i → i < 1024 → j < 1024 →
      m.get32 (image.slot i j) = 0 →
      KmapResult image m paddr (m.set32 (image.slot i j) (mappedWord paddr),
        pageIdxVaddr i j (paddr % 4096))

/-- A highmem address gets the first free slot. -/
theorem kmap_slot (hk : KernelDirectory m image) {paddr i j : Nat}
    (hslot : findFreeSlot m image.dir kernHighmemStartTbl 32 = some (i, j))
    (hp : kernIdentityPhysEnd ≤ paddr) : kmap image.dir m paddr =
      (m.set32 (image.slot i j) (mappedWord paddr), pageIdxVaddr i j (paddr % 4096)) := by
  have hslot' := hslot
  simp only [kernHighmemStartTbl] at hslot'
  obtain ⟨hi₀, hi, -, hz⟩ := findFreeSlot_some _ _ hslot'
  have hptr := hk.pointers i (by omega) (by omega)
  rw [hptr] at hz
  have hold : getPage m (image.table i) j = ⟨false, false, false, false, false, 0, 0⟩ := by
    rw [getPage, hz, decode_zero]
  have hpage : setPage m (image.table i) j (pageFrame paddr) true true false =
      m.set32 (image.slot i j) (mappedWord paddr) := by
    rw [setPage, hold]
    rfl
  simp only [kernIdentityPhysEnd] at hp
  rw [kmap, if_neg (by omega), if_neg (by simp only [kernIdentityPhysEnd]; omega), hslot]
  simp only [hptr, hpage, pageSize]

theorem findFreePage_first {table j : Nat} (hz : m.get32 (kv2p table + 4 * j) = 0) :
    ∀ n i, i ≤ j → j < i + n → (∀ k, i ≤ k → k < j → m.get32 (kv2p table + 4 * k) ≠ 0) →
      findFreePage m table i n = some j := by
  intro n
  induction n with
  | zero =>
    intro i h₁ h₂
    omega
  | succ n ih =>
    intro i h₁ h₂ hused
    rw [findFreePage]
    by_cases he : i = j
    · rw [he, if_pos hz]
    · rw [if_neg (hused i (Nat.le_refl i) (by omega))]
      exact ih (i + 1) (by omega) (by omega) fun k h => hused k (by omega)

/-- The first free slot, where it lies in the first of the highmem tables. -/
theorem KernelDirectory.findFreeSlot_first (hk : KernelDirectory m image) {j : Nat} (hj : j < 1024)
    (hz : m.get32 (image.slot 992 j) = 0) (hused : ∀ k < j, m.get32 (image.slot 992 k) ≠ 0) :
    findFreeSlot m image.dir kernHighmemStartTbl 32 = some (992, j) := by
  have hpage : findFreePage m (image.table 992) 0 1024 = some j :=
    findFreePage_first hz 1024 0 (Nat.zero_le j) (by omega) fun k _ => hused k
  rw [kernHighmemStartTbl, findFreeSlot, hk.pointers 992 (by decide) (by decide), hpage]

/-- There a highmem address is mapped. -/
theorem KernelDirectory.kmap_first (hk : KernelDirectory m image) {paddr j : Nat} (hj : j < 1024)
    (hz : m.get32 (image.slot 992 j) = 0) (hused : ∀ k < j, m.get32 (image.slot 992 k) ≠ 0)
    (hp : kernIdentityPhysEnd ≤ paddr) : kmap image.dir m paddr =
      (m.set32 (image.slot 992 j) (mappedWord paddr), 0xF8000000 + j * 4096 + paddr % 4096) := by
  have hoff := Nat.mod_lt paddr (show 0 < 4096 by decide)
  rw [kmap_slot hk (hk.findFreeSlot_first hj hz hused) hp, pageIdxVaddr_eq (by decide) hj hoff]

/-- With every slot taken there is no address for highmem. -/
theorem kmap_full {dir paddr : Nat} (hslot : findFreeSlot m dir kernHighmemStartTbl 32 = none)
    (hp : kernIdentityPhysEnd ≤ paddr) : kmap dir m paddr = (m, 0) := by
  simp only [kernIdentityPhysEnd] at hp
  rw [kmap, if_neg (by omega), if_neg (by simp only [kernIdentityPhysEnd]; omega), hslot]

theorem kmap_result (hk : KernelDirectory m image) (paddr : Nat) :
    KmapResult image m paddr (kmap image.dir m paddr) := by
  by_cases h0 : paddr = 0
  · rw [kmap, if_pos h0]
    exact .null (Or.inl h0)
  by_cases hlow : paddr < kernIdentityPhysEnd
  · rw [kmap, if_neg h0, if_pos hlow]
    exact .identity (by omega) hlow
  · have hhigh : kernIdentityPhysEnd ≤ paddr := Nat.le_of_not_lt hlow
    cases hslot : findFreeSlot m image.dir kernHighmemStartTbl 32 with
    | none =>
      rw [kmap_full hslot hhigh]
      exact .null (Or.inr hhigh)
    | some slot =>
      have hslot' := hslot
      simp only [kernHighmemStartTbl] at hslot'
      obtain ⟨hi₀, hi, hj, hz⟩ := findFreeSlot_some (j := slot.2) _ _ hslot'
      rw [hk.pointers slot.1 (by omega) (by omega)] at hz
      rw [kmap_slot (i := slot.1) (j := slot.2) hk hslot hhigh]
      exact .slot hhigh hi₀ (by omega) hj hz

/-- The walk of an address whose slot `kmap` has just written. -/
theorem walk_mapped (hk : KernelDirectory m image) {cr3 i j p va : Nat}
    (hs : SharesKernelHalf m image cr3) (hi₀ : 768 ≤ i) (hi : i < 1024) (hj : j < 1024)
    (hva : va / 4096 = i * 1024 + j) :
    walk (m.set32 (image.slot i j) (mappedWord p)) cr3 va =
      some (getDirEntry (m.set32 (image.slot i j) (mappedWord p)) image.dir i,
        Page.decode (mappedWord p)) := by
  have hdi : pageDirIdx va = i := by simp only [pageDirIdx]; omega
  have hti : pageTblIdx va = j := by simp only [pageTblIdx]; omega
  have hpage : getPage (m.set32 (image.slot i j) (mappedWord p)) (image.table i) j =
      Page.decode (mappedWord p) :=
    congrArg Page.decode (Mem.get32_set32_self m (image.slot i j) (mappedWord_lt p))
  rw [(hk.set_slot hi₀ hi hj).walk_eq (hs.set_slot hi₀ hi hj) (by omega) (by omega), hdi, hti, hpage,
    decode_mappedWord, if_pos rfl]

theorem kunmap_eq (hk : KernelDirectory m image) {v : Nat} (h₀ : 0xC0000000 ≤ v)
    (h₁ : v < 4294967296) : kunmap image.dir m v =
      m.set32 (image.slot (pageDirIdx v) (pageTblIdx v)) 0 := by
  have hp := hk.pointers (pageDirIdx v) (by simp only [pageDirIdx]; omega)
    (by simp only [pageDirIdx]; omega)
  rw [kunmap, if_neg (by omega), if_neg (by omega), hp]
  rfl

theorem kunmap_zero (dir : Nat) (m : Mem) : kunmap dir m 0 = m := rfl

end BrownieOS.Mm
