import BrownieOS.Mm.IdentityWindow
import Mathlib.Data.List.Pairwise

/-!
# The books of the highmem window

Any sequence of `kmap` of highmem addresses and `kunmap` of live results, from the
kernel directory. A slot of the highmem tables is taken exactly while a live mapping
uses it, so the tables are the books of what is mapped.
-/
namespace BrownieOS.Mm

open BrownieOS.Lib BrownieOS.Lib.Word32

/-- A result of `kmap` that has not been unmapped, and what it was returned for. -/
structure Mapping where
  vaddr : Nat
  paddr : Nat
  deriving DecidableEq

/-- The number of the page the address lies in. -/
def Mapping.page (x : Mapping) : Nat := x.vaddr / 4096

structure HighmemState where
  mem : Mem
  live : List Mapping

def HighmemState.call (image : KernelImage) (s : HighmemState) : VmmCall → HighmemState
  | .kmap paddr =>
    let result := kmap image.dir s.mem paddr
    ⟨result.1, if result.2 = 0 then s.live else ⟨result.2, paddr⟩ :: s.live⟩
  | .kunmap vaddr => ⟨kunmap image.dir s.mem vaddr, s.live.filter fun x => decide (x.vaddr ≠ vaddr)⟩

/-- Only highmem is mapped, and only what is live is unmapped. -/
def HighmemState.Legal (s : HighmemState) : VmmCall → Prop
  | .kmap paddr => kernIdentityPhysEnd ≤ paddr ∧ paddr < 4294967296
  | .kunmap vaddr => ∃ x ∈ s.live, x.vaddr = vaddr

def HighmemStep (image : KernelImage) (s : HighmemState) (c : VmmCall) (s' : HighmemState) : Prop :=
  s.Legal c ∧ s' = s.call image c

/-- The highmem tables are empty, as the loader leaves them. -/
def HighmemEmpty (m : Mem) (image : KernelImage) : Prop :=
  ∀ i, 992 ≤ i → i < 1024 → ∀ j < 1024, m.get32 (image.slot i j) = 0

/-- What one live mapping says about its address and its slot. -/
structure Mapping.Live (m : Mem) (image : KernelImage) (x : Mapping) : Prop where
  highmem : kernIdentityPhysEnd ≤ x.paddr ∧ x.paddr < 4294967296
  window : 0xF8000000 ≤ x.vaddr ∧ x.vaddr < 4294967296
  offset : x.vaddr % 4096 = x.paddr % 4096
  word : m.get32 (image.slot (pageDirIdx x.vaddr) (pageTblIdx x.vaddr)) = mappedWord x.paddr

/-- The run invariant: the books are right. -/
structure HighmemInv (image : KernelImage) (s : HighmemState) : Prop where
  directory : KernelDirectory s.mem image
  live : ∀ x ∈ s.live, x.Live s.mem image
  apart : s.live.Pairwise fun x y => x.page ≠ y.page
  taken : ∀ i, 992 ≤ i → i < 1024 → ∀ j < 1024,
    (s.mem.get32 (image.slot i j) ≠ 0 ↔ ∃ x ∈ s.live, x.page = i * 1024 + j)

variable {image : KernelImage} {m m₀ : Mem} {calls : List VmmCall} {s s' : HighmemState}

theorem Mapping.Live.idx {x : Mapping} (h : x.Live m image) : 992 ≤ pageDirIdx x.vaddr ∧
    pageDirIdx x.vaddr < 1024 ∧ pageTblIdx x.vaddr < 1024 ∧
    x.page = pageDirIdx x.vaddr * 1024 + pageTblIdx x.vaddr := by
  have hw := h.window
  simp only [pageDirIdx, pageTblIdx, page]
  omega

/-- A live mapping survives a write to the slot of another page. -/
theorem Mapping.Live.set_slot {x : Mapping} (h : x.Live m image) {i j v : Nat} (hi₀ : 992 ≤ i)
    (hi : i < 1024) (hj : j < 1024) (hv : v < 4294967296) (hne : x.page ≠ i * 1024 + j) :
    x.Live (m.set32 (image.slot i j) v) image := by
  obtain ⟨hx₀, hx₁, hx₂, hpage⟩ := h.idx
  have hword := image.get32_slot (m := m) (by omega) hi hj (by omega) hx₁ hx₂ hv
  rw [if_neg (by rintro ⟨rfl, rfl⟩; exact hne hpage)] at hword
  exact ⟨h.highmem, h.window, h.offset, hword.trans h.word⟩

/-- A live mapping translates to its physical address. -/
theorem Mapping.Live.translate {x : Mapping} (h : x.Live m image) (hk : KernelDirectory m image) :
    translate m image.dirPaddr x.vaddr = some x.paddr := by
  have hw := h.window
  have hp := h.highmem
  have ho := h.offset
  have hpage : getPage m (image.table (pageDirIdx x.vaddr)) (pageTblIdx x.vaddr) =
      Page.decode (mappedWord x.paddr) := congrArg Page.decode h.word
  rw [Mm.translate, hk.walk_eq (sharesKernelHalf_self m image) (by omega) hw.2, hpage,
    decode_mappedWord]
  simp only [↓reduceIte, Option.map_some, Option.some.injEq, framePaddr, BitVec.toNat_ofNat, pageFrame]
  omega

namespace HighmemInv

theorem start (hdir : KernelDirectory m image) (hempty : HighmemEmpty m image) :
    HighmemInv image ⟨m, []⟩ where
  directory := hdir
  live := by simp
  apart := List.Pairwise.nil
  taken := by
    intro i h₀ h₁ j hj
    simp [hempty i h₀ h₁ j hj]

theorem call_kmap (hi : HighmemInv image s) {paddr : Nat} (hp : kernIdentityPhysEnd ≤ paddr)
    (hp' : paddr < 4294967296) : HighmemInv image (s.call image (.kmap paddr)) := by
  cases hslot : findFreeSlot s.mem image.dir kernHighmemStartTbl 32 with
  | none =>
    rw [HighmemState.call, kmap_full hslot hp]
    exact hi
  | some slot =>
    obtain ⟨i, j⟩ := slot
    have hslot' := hslot
    simp only [kernHighmemStartTbl] at hslot'
    obtain ⟨hi₀, hi₁, hj, hz⟩ := findFreeSlot_some _ _ hslot'
    rw [hi.directory.pointers i (by omega) (by omega)] at hz
    change s.mem.get32 (image.slot i j) = 0 at hz
    have ho := Nat.mod_lt paddr (by decide : 0 < 4096)
    have hv := pageIdxVaddr_eq (i := i) (by omega) hj ho
    obtain ⟨hdi, hti, hoff⟩ := pageIdxVaddr_idx (i := i) (by omega) hj ho
    rw [HighmemState.call, kmap_slot hi.directory hslot hp]
    simp only
    rw [if_neg (by rw [hv]; omega)]
    -- no live mapping uses the slot, for its word is zero
    have hfree : ∀ x ∈ s.live, x.page ≠ i * 1024 + j := by
      intro x hx hpage
      exact (hi.taken i hi₀ (by omega) j hj).mpr ⟨x, hx, hpage⟩ hz
    have hwin : 0xF8000000 ≤ pageIdxVaddr i j (paddr % 4096) ∧
        pageIdxVaddr i j (paddr % 4096) < 4294967296 := by
      rw [hv]
      omega
    have hpage : Mapping.page ⟨pageIdxVaddr i j (paddr % 4096), paddr⟩ = i * 1024 + j := by
      simp only [Mapping.page, hv]
      omega
    constructor
    · exact hi.directory.set_slot (by omega) (by omega) hj
    · intro x hx
      rcases List.mem_cons.mp hx with rfl | hx
      · refine ⟨⟨hp, hp'⟩, hwin, hoff, ?_⟩
        simp only [hdi, hti]
        exact Mem.get32_set32_self _ _ (mappedWord_lt paddr)
      · exact (hi.live x hx).set_slot hi₀ (by omega) hj (mappedWord_lt paddr) (hfree x hx)
    · refine List.Pairwise.cons (fun x hx => ?_) hi.apart
      rw [hpage]
      exact (hfree x hx).symm
    · intro i' h₀ h₁ j' hj'
      rw [image.get32_slot (by omega) (by omega) hj (by omega) h₁ hj' (mappedWord_lt paddr)]
      by_cases hsame : i' = i ∧ j' = j
      · obtain ⟨rfl, rfl⟩ := hsame
        rw [if_pos ⟨rfl, rfl⟩]
        exact iff_of_true (mappedWord_ne_zero paddr) ⟨_, List.mem_cons_self, hpage⟩
      · rw [if_neg hsame, hi.taken i' h₀ h₁ j' hj']
        simp only [List.mem_cons, exists_eq_or_imp, hpage]
        constructor
        · exact Or.inr
        · rintro (h | h)
          · exact absurd (by omega) hsame
          · exact h

theorem call_kunmap (hi : HighmemInv image s) {x : Mapping} (hx : x ∈ s.live) :
    HighmemInv image (s.call image (.kunmap x.vaddr)) := by
  have hlive := hi.live x hx
  obtain ⟨hi₀, hi₁, hj, hpage⟩ := hlive.idx
  have hw := hlive.window
  rw [HighmemState.call, kunmap_eq hi.directory (by omega) hw.2]
  -- the mappings kept are those on other pages
  have hkept : ∀ y ∈ s.live, y.vaddr ≠ x.vaddr → y.page ≠ x.page := by
    intro y hy hne
    have hyx : y ≠ x := fun h => hne (h ▸ rfl)
    have hsymm : Std.Symm fun x y : Mapping => x.page ≠ y.page := ⟨fun _ _ => Ne.symm⟩
    exact hi.apart.forall hy hx hyx
  have hmem : ∀ y, y ∈ s.live.filter (fun y => decide (y.vaddr ≠ x.vaddr)) ↔
      y ∈ s.live ∧ y.vaddr ≠ x.vaddr := by
    intro y
    rw [List.mem_filter, decide_eq_true_iff]
  constructor
  · exact hi.directory.set_slot (by omega) hi₁ hj
  · intro y hy
    obtain ⟨hy, hne⟩ := (hmem y).mp hy
    exact (hi.live y hy).set_slot hi₀ hi₁ hj (by decide) (hpage ▸ hkept y hy hne)
  · exact hi.apart.sublist List.filter_sublist
  · intro i' h₀ h₁ j' hj'
    rw [image.get32_slot (by omega) hi₁ hj (by omega) h₁ hj' (by decide)]
    simp only [hmem]
    by_cases hsame : i' = pageDirIdx x.vaddr ∧ j' = pageTblIdx x.vaddr
    · rw [if_pos hsame, hsame.1, hsame.2, ← hpage]
      refine iff_of_false (fun h => h rfl) ?_
      rintro ⟨y, ⟨hy, hne⟩, hyp⟩
      exact hkept y hy hne hyp
    · rw [if_neg hsame, hi.taken i' h₀ h₁ j' hj']
      constructor
      · rintro ⟨y, hy, hyp⟩
        refine ⟨y, ⟨hy, fun he => hsame ?_⟩, hyp⟩
        have hpp : y.page = x.page := by simp only [Mapping.page, he]
        omega
      · rintro ⟨y, ⟨hy, -⟩, hyp⟩
        exact ⟨y, hy, hyp⟩

theorem step {c : VmmCall} (hi : HighmemInv image s) (hs : HighmemStep image s c s') :
    HighmemInv image s' := by
  obtain ⟨hlegal, rfl⟩ := hs
  cases c with
  | kmap paddr => exact hi.call_kmap hlegal.1 hlegal.2
  | kunmap vaddr =>
    obtain ⟨x, hx, rfl⟩ := hlegal
    exact hi.call_kunmap hx

/-- `kmap` fails only on a full window, and otherwise writes one slot. -/
theorem kmap_outcome (hi : HighmemInv image s) {paddr : Nat} (hp : kernIdentityPhysEnd ≤ paddr) :
    ((kmap image.dir s.mem paddr).2 = 0 ↔
      ∀ i, 992 ≤ i → i < 1024 → ∀ j < 1024, s.mem.get32 (image.slot i j) ≠ 0) ∧
    ((kmap image.dir s.mem paddr).2 = 0 → (kmap image.dir s.mem paddr).1 = s.mem) ∧
    ∀ v, v = (kmap image.dir s.mem paddr).2 → v ≠ 0 →
      Mem.AgreeOff s.mem (kmap image.dir s.mem paddr).1 (image.slot (pageDirIdx v) (pageTblIdx v))
        (image.slot (pageDirIdx v) (pageTblIdx v) + 4) := by
  cases hslot : findFreeSlot s.mem image.dir kernHighmemStartTbl 32 with
  | none =>
    rw [kmap_full hslot hp]
    simp only [kernHighmemStartTbl] at hslot
    refine ⟨iff_of_true rfl fun i h₀ h₁ j hj => ?_, fun _ => rfl, fun v hv h => absurd hv h⟩
    have hnz := findFreeSlot_none _ _ hslot i h₀ (by omega) j hj
    rwa [hi.directory.pointers i (by omega) h₁] at hnz
  | some slot =>
    obtain ⟨i, j⟩ := slot
    have hslot' := hslot
    simp only [kernHighmemStartTbl] at hslot'
    obtain ⟨hi₀, hi₁, hj, hz⟩ := findFreeSlot_some _ _ hslot'
    rw [hi.directory.pointers i (by omega) (by omega)] at hz
    have ho := Nat.mod_lt paddr (by decide : 0 < 4096)
    have hv := pageIdxVaddr_eq (i := i) (by omega) hj ho
    obtain ⟨hdi, hti, -⟩ := pageIdxVaddr_idx (i := i) (by omega) hj ho
    rw [kmap_slot hi.directory hslot hp]
    have hne : pageIdxVaddr i j (paddr % 4096) ≠ 0 := by
      rw [hv]
      omega
    refine ⟨iff_of_false hne fun h => h i hi₀ (by omega) j hj hz, fun h => absurd h hne, ?_⟩
    rintro v rfl -
    rw [hdi, hti]
    exact (Mem.AgreeOff.refl _ _ _).set32 _ (Nat.le_refl _) (Nat.le_refl _)

end HighmemInv

/-- The state every run starts from. -/
def highmemStart (image : KernelImage) (m₀ : Mem) : HighmemState :=
  ⟨setupKernelDirectory image m₀, []⟩

theorem highmemStart_inv (hempty : HighmemEmpty m₀ image) :
    HighmemInv image (highmemStart image m₀) := by
  refine .start (setupKernelDirectory_spec image m₀).1 fun i h₀ h₁ j hj => ?_
  rw [← hempty i h₀ h₁ j hj]
  exact (setupKernelDirectory_kept image m₀).2 i h₀ h₁ j hj

/-- The books of the highmem window are right in every state of every run: each live
mapping translates to what it was made for, live mappings lie on pages of their own in
the window, a slot is non-zero exactly when a live mapping uses it, and the next `kmap`
fails exactly when every slot is taken and writes no slot but the one it returns. -/
theorem highmem_window (hempty : HighmemEmpty m₀ image)
    (hrun : Run (HighmemStep image) (highmemStart image m₀) calls s) :
    (∀ x ∈ s.live, translate s.mem image.dirPaddr x.vaddr = some x.paddr ∧
      (0xF8000000 ≤ x.vaddr ∧ x.vaddr < 4294967296) ∧ x.vaddr % 4096 = x.paddr % 4096) ∧
    s.live.Pairwise (fun x y => x.page ≠ y.page) ∧
    (∀ i, 992 ≤ i → i < 1024 → ∀ j < 1024,
      (s.mem.get32 (image.slot i j) ≠ 0 ↔ ∃ x ∈ s.live, x.page = i * 1024 + j)) ∧
    ∀ paddr, kernIdentityPhysEnd ≤ paddr → paddr < 4294967296 →
      ((kmap image.dir s.mem paddr).2 = 0 ↔
        ∀ i, 992 ≤ i → i < 1024 → ∀ j < 1024, s.mem.get32 (image.slot i j) ≠ 0) ∧
      ((kmap image.dir s.mem paddr).2 = 0 → (kmap image.dir s.mem paddr).1 = s.mem) ∧
      ∀ v, v = (kmap image.dir s.mem paddr).2 → v ≠ 0 →
        Mem.AgreeOff s.mem (kmap image.dir s.mem paddr).1
          (image.slot (pageDirIdx v) (pageTblIdx v))
          (image.slot (pageDirIdx v) (pageTblIdx v) + 4) := by
  have hi := hrun.invariant (I := HighmemInv image) (fun _ _ _ => HighmemInv.step)
    (highmemStart_inv hempty)
  refine ⟨fun x hx => ?_, hi.apart, hi.taken, fun paddr hp _ => hi.kmap_outcome hp⟩
  have hlive := hi.live x hx
  exact ⟨hlive.translate hi.directory, hlive.window, hlive.offset⟩

/-- Two pages are mapped on an empty machine and one of them is unmapped: the third page
comes into its slot, beside the second. -/
theorem highmem_window_slot_again : ∃ s : HighmemState,
    Run (HighmemStep sampleImage) (highmemStart sampleImage fun _ => 0)
      [.kmap 0x40000123, .kmap 0x80000000, .kunmap 0xF8000123, .kmap 0xC0000456] s ∧
    s.live = [⟨0xF8000456, 0xC0000456⟩, ⟨0xF8001000, 0x80000000⟩] ∧
    (∀ x ∈ s.live, translate s.mem sampleImage.dirPaddr x.vaddr = some x.paddr) ∧
    s.live.Pairwise fun x y => x.page ≠ y.page := by
  obtain ⟨m₀, m₁, m₂, hm₀, hfirst, hsecond, hk₂⟩ :=
    sample_two_mapped (p := 0x40000123) (q := 0x80000000) (by decide) (by decide)
  have hmap₁ : HighmemStep sampleImage ⟨m₀, []⟩ (.kmap 0x40000123) ⟨m₁, [⟨0xF8000123, 0x40000123⟩]⟩ :=
    ⟨show kernIdentityPhysEnd ≤ 0x40000123 ∧ 0x40000123 < 4294967296 by decide, by
      rw [HighmemState.call, hfirst]
      rfl⟩
  have hmap₂ : HighmemStep sampleImage ⟨m₁, [⟨0xF8000123, 0x40000123⟩]⟩ (.kmap 0x80000000)
      ⟨m₂, [⟨0xF8001000, 0x80000000⟩, ⟨0xF8000123, 0x40000123⟩]⟩ :=
    ⟨show kernIdentityPhysEnd ≤ 0x80000000 ∧ 0x80000000 < 4294967296 by decide, by
      rw [HighmemState.call, hsecond]
      rfl⟩
  have hunmap : HighmemStep sampleImage
      ⟨m₂, [⟨0xF8001000, 0x80000000⟩, ⟨0xF8000123, 0x40000123⟩]⟩ (.kunmap 0xF8000123)
      ⟨m₂.set32 (sampleImage.slot 992 0) 0, [⟨0xF8001000, 0x80000000⟩]⟩ :=
    ⟨⟨_, List.mem_cons_of_mem _ List.mem_cons_self, rfl⟩, by
      rw [HighmemState.call, kunmap_eq hk₂ (by decide) (by decide)]
      rfl⟩
  have hk₃ := hk₂.set_slot (i := 992) (j := 0) (v := 0) (by decide) (by decide) (by decide)
  have hthird : kmap sampleImage.dir (m₂.set32 (sampleImage.slot 992 0) 0) 0xC0000456 =
      (_, 0xF8000000 + 0 * 4096 + 0xC0000456 % 4096) :=
    hk₃.kmap_first (by decide) (Mem.get32_set32_self _ _ (by decide))
      (fun k hk => absurd hk (Nat.not_lt_zero k)) (by decide)
  have hmap₃ : HighmemStep sampleImage
      ⟨m₂.set32 (sampleImage.slot 992 0) 0, [⟨0xF8001000, 0x80000000⟩]⟩ (.kmap 0xC0000456)
      ⟨_, [⟨0xF8000456, 0xC0000456⟩, ⟨0xF8001000, 0x80000000⟩]⟩ :=
    ⟨show kernIdentityPhysEnd ≤ 0xC0000456 ∧ 0xC0000456 < 4294967296 by decide, by
      rw [HighmemState.call, hthird]
      rfl⟩
  have hrun := (((Run.single hmap₁).snoc hmap₂).snoc hunmap).snoc hmap₃
  rw [hm₀] at hrun
  have h := highmem_window (fun _ _ _ _ _ => rfl) hrun
  exact ⟨_, hrun, rfl, fun x hx => (h.1 x hx).1, h.2.1⟩

end BrownieOS.Mm
