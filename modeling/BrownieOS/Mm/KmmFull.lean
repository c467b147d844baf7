import BrownieOS.Mm.KmmFit

/-!
# A split when the block arrays are full

`insert_ordered_array` leaves a full array alone and returns 0, which `alloc_from_block`
does not look at. By then the tags are rewritten: the remainder is in no array, and the
header of the block handed out names a footer that is not the one at its index.
-/
namespace BrownieOS.Mm

open BrownieOS.Lib BrownieOS.Lib.Word32 BrownieOS.Core

/-- The byte at `a` belongs to the block that the header array lists at `i`. -/
def InBlock (heap : Heap) (i a : Nat) : Prop :=
  heap.headerArray.get i ≤ a ∧
    a < heap.headerArray.get i + 32 + headerSize heap.mem (heap.headerArray.get i)

/-- The listed blocks share out the heap, and each header names the footer at its index. -/
structure BlocksListed (heap : Heap) : Prop where
  covered : ∀ a, heap.start ≤ a → a < heap.endAddr →
    ∃! i, i < heap.headerArray.size ∧ InBlock heap i a
  paired : ∀ i < heap.headerArray.size,
    headerFooter heap.mem (heap.headerArray.get i) = heap.footerArray.get i

/-- `alloc` fails with nothing changed, or leaves every byte in one listed block. -/
def KeepsBlocks (heap : Heap) (size : Nat) : Prop :=
  (alloc heap size).2 = 0 ∧ (alloc heap size).1 = heap ∨ BlocksListed (alloc heap size).1

variable {heap heap' : Heap} {bs : List Block} {b : Block} {size : Nat}

theorem takesWhole_of_room {blockSize : Nat} (h : size + 96 < blockSize)
    (hb : blockSize < 4294967296) : takesWhole blockSize size = false := by
  rw [takesWhole, decide_eq_false_iff_not]
  simp only [wsub, sizeofHeader, sizeofFooter]
  omega

/-- A split in a heap with full arrays: the arrays are as before, the footer pointer is new. -/
theorem allocFromBlock_full (h : Layout heap bs) (hb : b ∈ bs)
    (hfull : heap.headerArray.size = heap.headerArray.maxSize) (hbig : size + 96 < b.size)
    (htaken : allocFromBlock heap b.addr b.footer size = (heap', b.addr)) :
    heap'.headerArray = heap.headerArray ∧ heap'.footerArray = heap.footerArray ∧
      headerFooter heap'.mem b.addr = b.addr + 16 + size := by
  have hbound := h.bounds hb
  have hsame := h.header_length.trans h.footer_length.symm
  have hmax := h.sameMax
  have hold : headerSize heap.mem b.addr = b.size := (h.tags b hb).size
  have hsplit : takesWhole b.size size = false := takesWhole_of_room hbig (by omega)
  have hnf : wadd (wadd b.addr size) sizeofHeader = b.addr + 16 + size := by
    simp only [wadd, sizeofHeader]
    omega
  unfold allocFromBlock at htaken
  rw [hold, hsplit, if_neg Bool.false_ne_true] at htaken
  obtain rfl := (Prod.mk.inj htaken).1
  refine ⟨congrArg Prod.fst (OrderedArray.insert_full (by omega) _),
    congrArg Prod.fst (OrderedArray.insert_full (by omega) _), ?_⟩
  · -- only the mark is written after the footer pointer
    refine (Mem.get32_set32_of_apart _ _ (by omega)).trans ?_
    refine (Mem.get32_set32_self _ _ (wadd_lt _ _)).trans ?_
    exact hnf

theorem allocFromBlock_maxSize {header footer ret : Nat}
    (h : allocFromBlock heap header footer size = (heap', ret)) :
    heap'.headerArray.maxSize = heap.headerArray.maxSize := by
  unfold allocFromBlock at h
  split at h
  · obtain rfl := (Prod.mk.inj h).1
    rfl
  · obtain rfl := (Prod.mk.inj h).1
    exact OrderedArray.insert_maxSize _ _

/-- A request that splits a block of a full heap breaks the pairing of the arrays. -/
theorem not_keepsBlocks (h : Layout heap bs)
    (hfull : heap.headerArray.size = heap.headerArray.maxSize)
    (hfit : LowestFit bs (roundUp16 size) b) (hbig : roundUp16 size + 96 < b.size)
    (h0 : size ≠ 0) : ¬ KeepsBlocks heap size := by
  have hbound := h.bounds hfit.listed
  have hle : size ≤ 0xFFFFFFF0 := by
    simp only [roundUp16] at hbig
    omega
  have hres := alloc_outcome h h0
  rw [alignRequest_eq hle] at hres
  intro hkeeps
  unfold KeepsBlocks at hkeeps
  generalize alloc heap size = result at hres hkeeps
  cases hres with
  | none hno =>
    have hsmall := hno b hfit.listed hfit.free
    have hfits := hfit.fits
    omega
  | @block c heap' hc htaken =>
    obtain rfl := hfit.unique h hc
    obtain ⟨hheaders, hfooters, hpointer⟩ :=
      allocFromBlock_full h hfit.listed hfull hbig htaken
    rcases hkeeps with ⟨hz, -⟩ | hlisted
    · exact absurd hz (Nat.succ_ne_zero _)
    · obtain ⟨pre, post, rfl⟩ := List.append_of_mem hfit.listed
      have hlt : pre.length < heap'.headerArray.size := by
        rw [hheaders, h.header_length]
        simp
      have hpaired := hlisted.paired pre.length hlt
      rw [hheaders, hfooters, h.get_header, h.get_footer, hpointer] at hpaired
      simp only [Block.footer] at hpaired
      omega

/-- With full arrays and a first fit that is split, `alloc` keeps the block structure only
for the empty request, which it turns down before it looks at a block. -/
theorem keeps_blocks_iff (h : Layout heap bs)
    (hfull : heap.headerArray.size = heap.headerArray.maxSize)
    (hfit : LowestFit bs (roundUp16 size) b) (hbig : roundUp16 size + 96 < b.size) :
    KeepsBlocks heap size ↔ size = 0 := by
  constructor
  · intro hkeeps
    by_contra h0
    exact not_keepsBlocks h hfull hfit hbig h0 hkeeps
  · intro hz
    subst hz
    exact Or.inl ⟨rfl, rfl⟩

/-! ## A heap filled by 16-byte requests -/

/-- The heap after `n` requests of 16 bytes. -/
def filledHeap : Nat → Heap
  | 0 => bootHeap
  | n + 1 => (kmalloc (filledHeap n) 16).1

def filledBlocks (n : Nat) : List Block :=
  (List.range n).map fun i => ⟨0xC0400000 + 48 * i, 16, true⟩

/-- What is left of the heap behind the first `n` blocks. -/
def filledRest (n : Nat) : Block := ⟨0xC0400000 + 48 * n, 4194272 - 48 * n, false⟩

theorem filledBlocks_succ (n : Nat) :
    filledBlocks (n + 1) ++ [filledRest (n + 1)] =
      filledBlocks n ++ (Layout.cut (filledRest n) 16 ++ []) := by
  have hrest : filledRest (n + 1) = ⟨0xC0400000 + 48 * n + 32 + 16, 4194272 - 48 * n - 16 - 32, false⟩ := by
    simp only [filledRest, Block.mk.injEq, and_true]
    omega
  rw [hrest]
  simp [filledBlocks, filledRest, Layout.cut, List.range_succ]

theorem filledRest_fit {n : Nat} (hn : n ≤ 4095) :
    LowestFit (filledBlocks n ++ [filledRest n]) 16 (filledRest n) where
  listed := by simp
  free := rfl
  fits := by
    simp only [filledRest]
    omega
  lowest := by
    intro c hc hcu _
    rcases List.mem_append.mp hc with hc | hc
    · obtain ⟨i, -, rfl⟩ := List.mem_map.mp hc
      cases hcu
    · rw [List.mem_singleton.mp hc]

/-- One more request cuts 16 bytes off the rest. -/
theorem filledHeap_layout {n : Nat} (hn : n ≤ 4095) :
    Layout (filledHeap n) (filledBlocks n ++ [filledRest n]) ∧
      (filledHeap n).headerArray.maxSize = 4096 := by
  induction n with
  | zero => exact ⟨bootHeap_layout, rfl⟩
  | succ n ih =>
    obtain ⟨hl, hmax⟩ := ih (by omega)
    have hres := alloc_outcome hl (show (16 : Nat) ≠ 0 by decide)
    have halign : alignRequest 16 = 16 := rfl
    have hroom : (filledHeap n).headerArray.size < (filledHeap n).headerArray.maxSize := by
      rw [hl.header_length, hmax]
      simp [filledBlocks]
      omega
    have hfit := filledRest_fit (show n ≤ 4095 by omega)
    have hgo : filledHeap (n + 1) = (alloc (filledHeap n) 16).1 := rfl
    rw [halign] at hres
    rw [hgo]
    generalize alloc (filledHeap n) 16 = result at hres
    cases hres with
    | none hno =>
      have hsmall := hno _ hfit.listed rfl
      have hfits := hfit.fits
      omega
    | @block c heap' hc htaken =>
      obtain rfl := hfit.unique hl hc
      have hsplit : takesWhole (filledRest n).size 16 = false :=
        takesWhole_of_room (by simp only [filledRest]; omega) (by simp only [filledRest]; omega)
      have hcut := hl.allocFromBlock_split hsplit (by simp only [filledRest]; omega) (by decide) hroom
      rw [htaken] at hcut
      refine ⟨filledBlocks_succ n ▸ hcut.1, ?_⟩
      rw [← hmax, allocFromBlock_maxSize htaken]

theorem filledHeap_full :
    (filledHeap 4095).headerArray.size = (filledHeap 4095).headerArray.maxSize := by
  obtain ⟨hl, hmax⟩ := filledHeap_layout (Nat.le_refl 4095)
  rw [hl.header_length, hmax]
  simp [filledBlocks]

theorem keeps_blocks_filled : KeepsBlocks (filledHeap 4095) 16 ↔ (16 : Nat) = 0 :=
  keeps_blocks_iff (filledHeap_layout (Nat.le_refl 4095)).1 filledHeap_full
    (filledRest_fit (Nat.le_refl 4095)) (by decide)

/-- After 4095 requests of 16 bytes the arrays are full, and the next one breaks them. -/
theorem filled_heap_breaks : ¬ KeepsBlocks (filledHeap 4095) 16 :=
  not_keepsBlocks (filledHeap_layout (Nat.le_refl 4095)).1 filledHeap_full
    (filledRest_fit (Nat.le_refl 4095)) (by decide) (by decide)

end BrownieOS.Mm
