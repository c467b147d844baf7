import BrownieOS.Lib.Bitmap
import BrownieOS.Lib.Word32

/-!
# The physical frame allocator of `mm/paging.c`

The frame bitmap, the three operations on one frame, the first-fit scan of
`alloc_pages` and `free_pages`. The scan is a loop over 32-bit addresses. In the
highmem zone its bound is never reached, since the address wraps to 0 first, so
the loop can spin for ever: `allocPages` is `none` exactly there.
-/
namespace BrownieOS.Mm

open BrownieOS.Lib BrownieOS.Lib.Word32

abbrev pageSize : Nat := 0x1000
abbrev eom : Nat := 0xFFFFFFFF
abbrev kernStartTbl : Nat := 768
abbrev kernHighmemStartTbl : Nat := 992

/-- `(KERN_HIGHMEM_START_TBL - KERN_START_TBL) * PAGE_TABLE_SIZE`, 896 MiB. -/
abbrev kernIdentityPhysEnd : Nat := 0x38000000

def pageFrame (x : Nat) : Nat := x / 0x1000
def pageFrameBitmapIdx (x : Nat) : Nat := x / 8
def pageFrameBitmapOff (x : Nat) : Nat := x % 8
def pagePaddr (x : Nat) : Nat := wmul x 0x1000

/-- `framemap`: one bit a frame, set when the frame is used. -/
abbrev FrameMap := Bitmap 8

/-- `pmm_flags_t`. -/
abbrev PmmFlags := BitVec 8

abbrev pmmFlagsDefault : PmmFlags := 0
abbrev pmmFlagsHighmem : PmmFlags := 0b1

def setFrame (framemap : FrameMap) (addr : Nat) : FrameMap :=
  let frame := pageFrame addr
  let index := pageFrameBitmapIdx frame
  let offset := pageFrameBitmapOff frame
  Function.update framemap index (framemap index ||| (0x1#8 <<< offset))

def clearFrame (framemap : FrameMap) (addr : Nat) : FrameMap :=
  let frame := pageFrame addr
  let index := pageFrameBitmapIdx frame
  let offset := pageFrameBitmapOff frame
  Function.update framemap index (framemap index &&& ~~~(0x1#8 <<< offset))

def testFrame (framemap : FrameMap) (addr : Nat) : Bool :=
  let frame := pageFrame addr
  let index := pageFrameBitmapIdx frame
  let offset := pageFrameBitmapOff frame
  decide (framemap index &&& (0x1#8 <<< offset) ≠ 0)

theorem setFrame_eq (framemap : FrameMap) (addr : Nat) :
    setFrame framemap addr = framemap.set (addr / 4096) := rfl

theorem clearFrame_eq (framemap : FrameMap) (addr : Nat) :
    clearFrame framemap addr = framemap.clear (addr / 4096) := rfl

theorem testFrame_eq (framemap : FrameMap) (addr : Nat) :
    testFrame framemap addr = framemap.test (addr / 4096) := by
  have h := Bitmap.and_mask_ne_zero (x := framemap (addr / 4096 / 8)) (k := addr / 4096 % 8)
    (Nat.mod_lt _ (by decide))
  rw [Bool.eq_iff_iff, Bitmap.test, ← h]
  exact decide_eq_true_iff

/-- The scan loop of `alloc_pages`, from a loop head. `none`: still scanning when
the fuel is spent; `some none`: fell out of the loop; `some (some base)`: found. -/
def allocPagesScan (framemap : FrameMap) (endAddr count : Nat) :
    Nat → Nat → Nat → Option (Option Nat)
  | 0, _, _ => none
  | fuel + 1, contig, paddr =>
    if paddr < endAddr then
      if testFrame framemap paddr = false then
        let contig := wadd contig 1
        if contig = count then
          some (some (wsub paddr (pagePaddr (wsub count 1))))
        else
          allocPagesScan framemap endAddr count fuel contig (wadd paddr pageSize)
      else
        allocPagesScan framemap endAddr count fuel 0 (wadd paddr pageSize)
    else
      some none

/-- `for(i = 0; i < count; i++) set_frame(base + i * PAGE_SIZE)`. -/
def markFrames (framemap : FrameMap) (base : Nat) : Nat → FrameMap
  | 0 => framemap
  | i + 1 => setFrame (markFrames framemap base i) (wadd base (wmul i pageSize))

/-- `for(i = 0; i < count; i++) clear_frame(paddr + i * PAGE_SIZE)`. -/
def unmarkFrames (framemap : FrameMap) (paddr : Nat) : Nat → FrameMap
  | 0 => framemap
  | i + 1 => clearFrame (unmarkFrames framemap paddr i) (wadd paddr (wmul i pageSize))

/-- Iterations after which a scan that has not returned never will: two passes over
the address space, and one full cycle of the 32-bit counter when nothing resets it. -/
abbrev scanFuel : Nat := 4297064448

/-- `alloc_pages`: the base address (0 on failure) and the new bitmap, or `none`
when the scan spins for ever. -/
def allocPages (framemap : FrameMap) (flags : PmmFlags) (count : Nat) : Option (Nat × FrameMap) :=
  let highmem := flags &&& pmmFlagsHighmem ≠ 0
  let paddr := if highmem then kernIdentityPhysEnd else 0
  let endAddr := if highmem then eom else kernIdentityPhysEnd
  match allocPagesScan framemap endAddr count scanFuel 0 paddr with
  | none => none
  | some none => some (0, framemap)
  | some (some base) => some (base, markFrames framemap base count)

def freePages (framemap : FrameMap) (frame count : Nat) : FrameMap :=
  let paddr := wmul frame pageSize
  unmarkFrames framemap paddr count

/-! ## The bitmap view -/

/-- Frames of the 32-bit physical address space. -/
abbrev nFrames : Nat := 0x100000

theorem markFrames_eq (framemap : FrameMap) {base count : Nat} (ha : base % 4096 = 0)
    (hin : base / 4096 + count ≤ nFrames) :
    markFrames framemap base count = framemap.setRange (base / 4096) count := by
  induction count with
  | zero => rfl
  | succ i ih =>
    have haddr : wadd base (wmul i pageSize) / 4096 = base / 4096 + i := by
      simp only [wadd, wmul, pageSize, nFrames] at *
      omega
    rw [markFrames, ih (by omega), setFrame_eq, haddr, Bitmap.setRange]

theorem unmarkFrames_eq (framemap : FrameMap) {paddr count : Nat} (ha : paddr % 4096 = 0)
    (hin : paddr / 4096 + count ≤ nFrames) :
    unmarkFrames framemap paddr count = framemap.clearRange (paddr / 4096) count := by
  induction count with
  | zero => rfl
  | succ i ih =>
    have haddr : wadd paddr (wmul i pageSize) / 4096 = paddr / 4096 + i := by
      simp only [wadd, wmul, pageSize, nFrames] at *
      omega
    rw [unmarkFrames, ih (by omega), clearFrame_eq, haddr, Bitmap.clearRange]

theorem freePages_eq (framemap : FrameMap) {frame count : Nat} (hin : frame + count ≤ nFrames)
    (hc : 0 < count) : freePages framemap frame count = framemap.clearRange frame count := by
  have hp : wmul frame pageSize = frame * 4096 := by
    simp only [nFrames] at hin
    exact wmul_of_lt (by simp only [pageSize]; omega)
  have hdiv : frame * 4096 / 4096 = frame := by omega
  rw [freePages, hp, unmarkFrames_eq framemap (by omega) (by omega), hdiv]

/-! ## What the scan finds -/

/-- At a loop head the `contig` frames before `paddr` are free. After the address
has wrapped to 0 the counter says nothing, but frame 0 resets it. -/
structure ScanInv (framemap : FrameMap) (contig paddr : Nat) : Prop where
  aligned : paddr % 4096 = 0
  bounded : paddr < 4294967296
  counted : paddr = 0 ∨ contig ≤ paddr / 4096 ∧
    ∀ f, paddr / 4096 - contig ≤ f → f < paddr / 4096 → framemap.test f = false

/-- A range of frames fit to be handed out: free, in range and not at frame 0. -/
structure FreeRange (framemap : FrameMap) (base count : Nat) : Prop where
  aligned : base % 4096 = 0
  positive : 0 < base
  inside : base / 4096 + count ≤ nFrames
  free : ∀ f, base / 4096 ≤ f → f < base / 4096 + count → framemap.test f = false

namespace ScanInv

variable {framemap : FrameMap} {contig paddr count : Nat}

theorem start (hp : paddr % 4096 = 0) (hb : paddr < 4294967296) : ScanInv framemap 0 paddr :=
  ⟨hp, hb, Or.inr ⟨Nat.zero_le _, fun f h₁ h₂ => by omega⟩⟩

/-- A free frame is not frame 0, so the counter is exact and does not overflow. -/
theorem exact (hi : ScanInv framemap contig paddr) (h0 : framemap.test 0 = true)
    (hf : framemap.test (paddr / 4096) = false) : paddr ≠ 0 ∧ wadd contig 1 = contig + 1 := by
  have hp : paddr ≠ 0 := by
    rintro rfl
    simp [h0] at hf
  have hb := hi.bounded
  rcases hi.counted with h | ⟨h, -⟩
  · exact absurd h hp
  · exact ⟨hp, wadd_of_lt (by omega)⟩

theorem next_free (hi : ScanInv framemap contig paddr) (h0 : framemap.test 0 = true)
    (hf : framemap.test (paddr / 4096) = false) :
    ScanInv framemap (wadd contig 1) (wadd paddr pageSize) := by
  obtain ⟨hp, hc⟩ := hi.exact h0 hf
  have hb := hi.bounded
  have ha := hi.aligned
  rcases hi.counted with h | ⟨hle, hfree⟩
  · exact absurd h hp
  rw [hc]
  by_cases hw : paddr + 4096 < 4294967296
  · rw [show wadd paddr pageSize = paddr + 4096 from wadd_of_lt hw]
    refine ⟨by omega, hw, Or.inr ⟨by omega, fun f h₁ h₂ => ?_⟩⟩
    by_cases hlast : f = paddr / 4096
    · rw [hlast]; exact hf
    · exact hfree f (by omega) (by omega)
  · have hz : wadd paddr pageSize = 0 := by simp only [wadd, pageSize]; omega
    rw [hz]
    exact ⟨rfl, by decide, Or.inl rfl⟩

theorem next_used (hi : ScanInv framemap contig paddr) :
    ScanInv framemap 0 (wadd paddr pageSize) := by
  have ha := hi.aligned
  exact start (by simp only [wadd, pageSize]; omega) (wadd_lt _ _)

/-- The range reported when the counter reaches `count`. -/
theorem found (hi : ScanInv framemap contig paddr) (h0 : framemap.test 0 = true)
    (hf : framemap.test (paddr / 4096) = false) (hc : wadd contig 1 = count) :
    wsub paddr (pagePaddr (wsub count 1)) + (count - 1) * 4096 = paddr ∧
      FreeRange framemap (wsub paddr (pagePaddr (wsub count 1))) count := by
  obtain ⟨hp, hexact⟩ := hi.exact h0 hf
  have hb := hi.bounded
  have ha := hi.aligned
  rcases hi.counted with h | ⟨hle, hfree⟩
  · exact absurd h hp
  have hcount : count = contig + 1 := by omega
  have hsub : pagePaddr (wsub count 1) = contig * 4096 := by
    rw [hcount, pagePaddr, wsub_of_le (by omega) (by omega), wmul_of_lt (by omega)]
    omega
  have hbase : wsub paddr (contig * 4096) = paddr - contig * 4096 := wsub_of_le (by omega) hb
  have hall : ∀ f, (paddr - contig * 4096) / 4096 ≤ f →
      f < (paddr - contig * 4096) / 4096 + count → framemap.test f = false := by
    intro f h₁ h₂
    by_cases hlast : f = paddr / 4096
    · rw [hlast]; exact hf
    · exact hfree f (by omega) (by omega)
  rw [hsub, hbase]
  refine ⟨by omega, by omega, ?_, by simp only [nFrames]; omega, hall⟩
  by_contra hz
  have hzero := hall 0 (by omega) (by omega)
  simp [h0] at hzero

end ScanInv

/-- A scan that finds something finds a free range whose last page is below the bound. -/
theorem allocPagesScan_found {framemap : FrameMap} {endAddr count base : Nat}
    (h0 : framemap.test 0 = true) :
    ∀ fuel contig paddr, ScanInv framemap contig paddr →
      allocPagesScan framemap endAddr count fuel contig paddr = some (some base) →
      base + (count - 1) * 4096 < endAddr ∧ FreeRange framemap base count := by
  intro fuel
  induction fuel with
  | zero => intro contig paddr _ h; simp [allocPagesScan] at h
  | succ fuel ih =>
    intro contig paddr hi h
    rw [allocPagesScan] at h
    split at h
    · rename_i hlt
      rw [testFrame_eq] at h
      split at h
      · rename_i hf
        simp only at h
        split at h
        · rename_i hc
          obtain ⟨hlast, hrange⟩ := hi.found h0 hf hc
          simp only [Option.some.injEq] at h
          rw [h] at hlast hrange
          exact ⟨by omega, hrange⟩
        · exact ih _ _ (hi.next_free h0 hf) h
      · exact ih _ _ hi.next_used h
    · simp at h

/-- In the highmem zone the bound is never met: no page-aligned 32-bit address reaches it. -/
theorem allocPagesScan_highmem {framemap : FrameMap} {count : Nat} (h0 : framemap.test 0 = true) :
    ∀ fuel contig paddr, ScanInv framemap contig paddr →
      allocPagesScan framemap eom count fuel contig paddr ≠ some none := by
  intro fuel
  induction fuel with
  | zero => intro contig paddr _; simp [allocPagesScan]
  | succ fuel ih =>
    intro contig paddr hi
    have hlt : paddr < eom := by
      have ha := hi.aligned
      have hb := hi.bounded
      change paddr < 4294967295
      omega
    rw [allocPagesScan, if_pos hlt, testFrame_eq]
    split
    · rename_i hf
      simp only
      split
      · simp
      · exact ih _ _ (hi.next_free h0 hf)
    · exact ih _ _ hi.next_used

/-- The counter is never 0 after a free frame, so a request for no frames finds none. -/
theorem allocPagesScan_count {framemap : FrameMap} {endAddr count base : Nat}
    (h0 : framemap.test 0 = true) :
    ∀ fuel contig paddr, ScanInv framemap contig paddr →
      allocPagesScan framemap endAddr count fuel contig paddr = some (some base) → 0 < count := by
  intro fuel
  induction fuel with
  | zero => intro contig paddr _ h; simp [allocPagesScan] at h
  | succ fuel ih =>
    intro contig paddr hi h
    rw [allocPagesScan] at h
    split at h
    · rw [testFrame_eq] at h
      split at h
      · rename_i hf
        simp only at h
        split at h
        · rename_i hc
          obtain ⟨-, hexact⟩ := hi.exact h0 hf
          omega
        · exact ih _ _ (hi.next_free h0 hf) h
      · exact ih _ _ hi.next_used h
    · simp at h

/-- A scan of lowmem for one frame that ends empty-handed has seen no free frame. -/
theorem allocPagesScan_one {framemap : FrameMap} : ∀ fuel paddr, paddr % 4096 = 0 →
    allocPagesScan framemap kernIdentityPhysEnd 1 fuel 0 paddr = some none →
    ∀ f, paddr / 4096 ≤ f → f < kernIdentityPhysEnd / 4096 → framemap.test f = true := by
  intro fuel
  induction fuel with
  | zero => intro paddr _ h; simp [allocPagesScan] at h
  | succ fuel ih =>
    intro paddr ha h f h₁ h₂
    have hone : wadd 0 1 = 1 := rfl
    simp only [kernIdentityPhysEnd] at h₂
    rw [allocPagesScan] at h
    split at h
    · rename_i hlt
      rw [testFrame_eq] at h
      split at h
      · simp [hone] at h
      · rename_i hused
        have hnext : wadd paddr pageSize = paddr + 4096 := by
          simp only [kernIdentityPhysEnd] at hlt
          exact wadd_of_lt (by simp only [pageSize]; omega)
        rw [hnext] at h
        by_cases hf : f = paddr / 4096
        · rw [hf]
          simpa using hused
        · exact ih (paddr + 4096) (by omega) h f (by omega) (by simp only [kernIdentityPhysEnd]; omega)
    · rename_i hge
      simp only [kernIdentityPhysEnd] at hge
      omega

/-! ## What `alloc_pages` does -/

/-- `alloc_pages` handed out `count` frames from `base` on. -/
structure Allocated (framemap framemap' : FrameMap) (base count : Nat) : Prop
    extends FreeRange framemap base count where
  marked : framemap' = framemap.setRange (base / 4096) count

/-- The only two outcomes of a call that returns. -/
theorem allocPages_cases {framemap framemap' : FrameMap} {flags : PmmFlags} {count base : Nat}
    (h0 : framemap.test 0 = true) (h : allocPages framemap flags count = some (base, framemap')) :
    base = 0 ∧ framemap' = framemap ∨ Allocated framemap framemap' base count := by
  have hstart : ScanInv framemap 0
      (if flags &&& pmmFlagsHighmem ≠ 0 then kernIdentityPhysEnd else 0) := by
    split
    · exact ScanInv.start rfl (by decide)
    · exact ScanInv.start rfl (by decide)
  simp only [allocPages] at h
  split at h
  · simp at h
  · simp only [Option.some.injEq, Prod.mk.injEq] at h
    exact Or.inl ⟨h.1.symm, h.2.symm⟩
  · rename_i found hscan
    simp only [Option.some.injEq, Prod.mk.injEq] at h
    obtain ⟨rfl, rfl⟩ := h
    obtain ⟨-, hrange⟩ := allocPagesScan_found h0 _ _ _ hstart hscan
    exact Or.inr ⟨hrange, markFrames_eq framemap hrange.aligned hrange.inside⟩

/-- A non-zero result is an allocation. -/
theorem allocPages_allocated {framemap framemap' : FrameMap} {flags : PmmFlags} {count base : Nat}
    (h0 : framemap.test 0 = true) (h : allocPages framemap flags count = some (base, framemap'))
    (hb : base ≠ 0) : Allocated framemap framemap' base count := by
  rcases allocPages_cases h0 h with ⟨hz, -⟩ | ha
  · exact absurd hz hb
  · exact ha

/-- Default allocations lie in the identity-mapped zone. -/
theorem allocPages_lowmem {framemap framemap' : FrameMap} {count base : Nat}
    (h0 : framemap.test 0 = true) (hc : 0 < count)
    (h : allocPages framemap pmmFlagsDefault count = some (base, framemap')) :
    base + count * 4096 ≤ kernIdentityPhysEnd ∨ base = 0 ∧ framemap' = framemap := by
  have hflag : ¬ (pmmFlagsDefault &&& pmmFlagsHighmem ≠ 0) := by decide
  simp only [allocPages, if_neg hflag] at h
  split at h
  · simp at h
  · simp only [Option.some.injEq, Prod.mk.injEq] at h
    exact Or.inr ⟨h.1.symm, h.2.symm⟩
  · rename_i found hscan
    simp only [Option.some.injEq, Prod.mk.injEq] at h
    obtain ⟨rfl, rfl⟩ := h
    obtain ⟨hlt, hrange⟩ := allocPagesScan_found h0 _ _ _ (ScanInv.start rfl (by decide)) hscan
    have ha := hrange.aligned
    have hk : kernIdentityPhysEnd = 939524096 := rfl
    rw [hk] at hlt ⊢
    exact Or.inl (by omega)

/-- One default frame is refused only when there is none. -/
theorem allocPages_exhausted {framemap framemap' : FrameMap}
    (h : allocPages framemap pmmFlagsDefault 1 = some (0, framemap')) (h0 : framemap.test 0 = true) :
    ∀ f < kernIdentityPhysEnd / 4096, framemap.test f = true := by
  have hflag : ¬ (pmmFlagsDefault &&& pmmFlagsHighmem ≠ 0) := by decide
  simp only [allocPages, if_neg hflag] at h
  split at h
  · simp at h
  · rename_i hscan
    exact fun f hf => allocPagesScan_one _ _ rfl hscan f (Nat.zero_le _) hf
  · rename_i found hscan
    simp only [Option.some.injEq, Prod.mk.injEq] at h
    have hpos := (allocPagesScan_found h0 _ _ _ (ScanInv.start rfl (by decide)) hscan).2.positive
    omega

/-- Frames that are handed out are at least one. -/
theorem allocPages_count_pos {framemap framemap' : FrameMap} {flags : PmmFlags} {count base : Nat}
    (h0 : framemap.test 0 = true) (h : allocPages framemap flags count = some (base, framemap'))
    (hb : base ≠ 0) : 0 < count := by
  have hstart : ScanInv framemap 0
      (if flags &&& pmmFlagsHighmem ≠ 0 then kernIdentityPhysEnd else 0) := by
    split
    · exact ScanInv.start rfl (by decide)
    · exact ScanInv.start rfl (by decide)
  simp only [allocPages] at h
  split at h
  · simp at h
  · simp only [Option.some.injEq, Prod.mk.injEq] at h
    exact absurd h.1.symm hb
  · rename_i found hscan
    exact allocPagesScan_count h0 _ _ _ hstart hscan

/-- A highmem request that returns has found its frames: it never reports failure. -/
theorem allocPages_highmem_ne_zero {framemap framemap' : FrameMap} {count base : Nat}
    (h0 : framemap.test 0 = true)
    (h : allocPages framemap pmmFlagsHighmem count = some (base, framemap')) : base ≠ 0 := by
  have hflag : pmmFlagsHighmem &&& pmmFlagsHighmem ≠ 0 := by decide
  have hstart : ScanInv framemap 0 kernIdentityPhysEnd := ScanInv.start rfl (by decide)
  simp only [allocPages, if_pos hflag] at h
  split at h
  · simp at h
  · rename_i hscan
    exact absurd hscan (allocPagesScan_highmem h0 _ _ _ hstart)
  · rename_i found hscan
    simp only [Option.some.injEq, Prod.mk.injEq] at h
    obtain ⟨rfl, -⟩ := h
    have hp := (allocPagesScan_found h0 _ _ _ hstart hscan).2.positive
    omega

end BrownieOS.Mm
