import BrownieOS.Lib.Tiling
import BrownieOS.Mm.Kmm
import Mathlib.Data.List.Chain

/-!
# The kernel heap as a list of blocks

`Layout heap bs` says that the tags and the two arrays spell the blocks `bs`, which
tile the heap. Each operation of `kmm.c` is then one edit of the list: a free block
is taken whole or cut in two, and a freed block absorbs its free neighbours.
-/
namespace BrownieOS.Mm

open BrownieOS.Lib BrownieOS.Lib.Word32 BrownieOS.Core

structure Block where
  addr : Nat
  size : Nat
  used : Bool
  deriving DecidableEq

namespace Block

def footer (b : Block) : Nat := b.addr + 16 + b.size
def payload (b : Block) : Nat := b.addr + 16
def stop (b : Block) : Nat := b.addr + 32 + b.size

end Block

/-- The header and the footer of the block are in memory, with both magics. -/
structure Tags (m : Mem) (b : Block) : Prop where
  size : headerSize m b.addr = b.size
  toFooter : headerFooter m b.addr = b.footer
  used : headerUsed m b.addr = if b.used then 1 else 0
  magic32 : headerMagic m b.addr = kheapMagic32
  toHeader : footerHeader m b.footer = b.addr
  magic64 : footerMagic m b.footer = kheapMagic64

/-- The tags and the arrays spell the blocks, which tile the heap in 16-byte units. -/
structure Layout (heap : Heap) (bs : List Block) : Prop where
  magic : heap.magic = kheapMagic64
  headers : heap.headerArray.entries = bs.map Block.addr
  footers : heap.footerArray.entries = bs.map Block.footer
  headerOrder : heap.headerArray.predicate = lessPredicate
  footerOrder : heap.footerArray.predicate = lessPredicate
  sameMax : heap.headerArray.maxSize = heap.footerArray.maxSize
  capacity : heap.headerArray.size ≤ heap.headerArray.maxSize
  maxBound : heap.headerArray.maxSize < 4294967296
  tags : ∀ b ∈ bs, Tags heap.mem b
  tiles : Tiles Block.addr Block.stop heap.start bs heap.endAddr
  aligned : ∀ b ∈ bs, b.addr % 16 = 0 ∧ b.size % 16 = 0
  bound : heap.endAddr ≤ 4294967296

/-- No two neighbours are both free. -/
def Separated (bs : List Block) : Prop :=
  bs.IsChain fun x y => x.used = true ∨ y.used = true

/-- Tags survive writes outside the block. -/
theorem Tags.of_agree {m m' : Mem} {b : Block} {lo hi : Nat} (h : Tags m b)
    (hm : Mem.AgreeOff m m' lo hi) (hb : b.stop ≤ lo ∨ hi ≤ b.addr) : Tags m' b := by
  simp only [Block.stop] at hb
  constructor
  · rw [headerSize, hm.get32 (by omega)]; exact h.size
  · rw [headerFooter, hm.get32 (by omega)]; exact h.toFooter
  · rw [headerUsed, hm.get32 (by omega)]; exact h.used
  · rw [headerMagic, hm.get32 (by omega)]; exact h.magic32
  · rw [footerHeader, hm.get32 (by simp only [Block.footer]; omega)]; exact h.toHeader
  · rw [footerMagic, hm.get64 (by simp only [Block.footer]; omega)]; exact h.magic64

namespace Layout

variable {heap : Heap} {bs pre post : List Block} {b : Block}

theorem header_length (h : Layout heap bs) : heap.headerArray.size = bs.length := by
  rw [← OrderedArray.entries_length, h.headers, List.length_map]

theorem footer_length (h : Layout heap bs) : heap.footerArray.size = bs.length := by
  rw [← OrderedArray.entries_length, h.footers, List.length_map]

theorem prechecks (h : Layout heap bs) : kmmPrechecks heap = true := by
  simp [kmmPrechecks, h.magic, h.header_length, h.footer_length]

theorem checks (h : Layout heap bs) (hb : b ∈ bs) :
    kmmChecks heap.mem b.addr b.footer = true := by
  have ht := h.tags b hb
  simp [kmmChecks, ht.magic32, ht.magic64, ht.toFooter, ht.toHeader]

/-- Every block lies in the heap, and the heap in the 32-bit address space. -/
theorem bounds (h : Layout heap bs) (hb : b ∈ bs) :
    heap.start ≤ b.addr ∧ b.addr + 32 + b.size ≤ heap.endAddr ∧ heap.endAddr ≤ 4294967296 := by
  have ht := h.tiles.mem_bounds hb
  simp only [Block.stop] at ht
  exact ⟨ht.1, ht.2.2, h.bound⟩

theorem get_header (h : Layout heap (pre ++ b :: post)) :
    heap.headerArray.get pre.length = b.addr := by
  rw [OrderedArray.get, OrderedArray.array_of_entries h.headers (by simp)]
  simp

theorem get_footer (h : Layout heap (pre ++ b :: post)) :
    heap.footerArray.get pre.length = b.footer := by
  rw [OrderedArray.get, OrderedArray.array_of_entries h.footers (by simp)]
  simp

/-- The search in the header array finds the block. -/
theorem find_header (h : Layout heap (pre ++ b :: post)) :
    heap.headerArray.find b.addr = pre.length := by
  have hsplit : heap.headerArray.entries = pre.map Block.addr ++ b.addr :: post.map Block.addr := by
    rw [h.headers, List.map_append, List.map_cons]
  rw [OrderedArray.find_entries hsplit, List.length_map]
  intro hmem
  have hnd := h.tiles.nodup_start
  rw [List.map_append, List.map_cons] at hnd
  exact (List.nodup_append.mp hnd).2.2 _ hmem _ List.mem_cons_self rfl

/-- The arrays are ordered around a block. -/
theorem order (h : Layout heap (pre ++ b :: post)) :
    (∀ x ∈ pre, x.stop ≤ b.addr) ∧ ∀ x ∈ post, b.stop ≤ x.addr := by
  obtain ⟨hl, -, hr⟩ := h.tiles.around
  exact ⟨fun x hx => (hl.mem_bounds hx).2.2, fun x hx => (hr.mem_bounds hx).1⟩

/-! ## Edits of the block list -/

/-- An operation edits tags and array slots only. -/
structure Kept (heap heap' : Heap) : Prop where
  magic : heap'.magic = heap.magic
  start : heap'.start = heap.start
  endAddr : heap'.endAddr = heap.endAddr
  headerOrder : heap'.headerArray.predicate = heap.headerArray.predicate
  footerOrder : heap'.footerArray.predicate = heap.footerArray.predicate
  headerMax : heap'.headerArray.maxSize = heap.headerArray.maxSize
  footerMax : heap'.footerArray.maxSize = heap.footerArray.maxSize

/-- The blocks `old` over `[lo, hi)` become `new`: the tags of the others are outside
the writes, so it remains to look at the new blocks and at the arrays. -/
theorem rebuild {heap' : Heap} (old new : List Block) {lo hi : Nat}
    (h : Layout heap (pre ++ (old ++ post))) (hk : Kept heap heap')
    (hpre : Tiles Block.addr Block.stop heap.start pre lo)
    (hnew : Tiles Block.addr Block.stop lo new hi)
    (hpost : Tiles Block.addr Block.stop hi post heap.endAddr)
    (hheaders : heap'.headerArray.entries = (pre ++ (new ++ post)).map Block.addr)
    (hfooters : heap'.footerArray.entries = (pre ++ (new ++ post)).map Block.footer)
    (hroom : (pre ++ (new ++ post)).length ≤ heap.headerArray.maxSize)
    (hmem : Mem.AgreeOff heap.mem heap'.mem lo hi) (htags : ∀ b ∈ new, Tags heap'.mem b)
    (haligned : ∀ b ∈ new, b.addr % 16 = 0 ∧ b.size % 16 = 0) :
    Layout heap' (pre ++ (new ++ post)) := by
  constructor
  · rw [hk.magic]; exact h.magic
  · exact hheaders
  · exact hfooters
  · rw [hk.headerOrder]; exact h.headerOrder
  · rw [hk.footerOrder]; exact h.footerOrder
  · rw [hk.headerMax, hk.footerMax]; exact h.sameMax
  · rw [hk.headerMax, ← OrderedArray.entries_length, hheaders, List.length_map]; exact hroom
  · rw [hk.headerMax]; exact h.maxBound
  · intro c hc
    rcases List.mem_append.mp hc with hc | hc
    · exact (h.tags c (by simp [hc])).of_agree hmem (Or.inl (hpre.mem_bounds hc).2.2)
    · rcases List.mem_append.mp hc with hc | hc
      · exact htags c hc
      · exact (h.tags c (by simp [hc])).of_agree hmem (Or.inr (hpost.mem_bounds hc).1)
  · rw [hk.start, hk.endAddr]
    exact Tiles.append_iff.mpr ⟨lo, hpre, Tiles.append_iff.mpr ⟨hi, hnew, hpost⟩⟩
  · intro c hc
    rcases List.mem_append.mp hc with hc | hc
    · exact h.aligned c (by simp [hc])
    · rcases List.mem_append.mp hc with hc | hc
      · exact haligned c hc
      · exact h.aligned c (by simp [hc])
  · rw [hk.endAddr]; exact h.bound

/-- Writing the used field of a block changes that block's mark only. -/
theorem mark (h : Layout heap (pre ++ b :: post)) (u : Bool) :
    Layout { heap with mem := setHeaderUsed heap.mem b.addr (if u then 1 else 0) }
      (pre ++ { b with used := u } :: post) := by
  have hb := h.tags b (by simp)
  obtain ⟨hpre, hlt, hpost⟩ := h.tiles.around
  have hval : (if u then 1 else 0) < 4294967296 := by split <;> decide
  have hroom := h.capacity
  rw [h.header_length] at hroom
  refine h.rebuild [b] [{ b with used := u }] ⟨rfl, rfl, rfl, rfl, rfl, rfl, rfl⟩
    hpre ⟨rfl, hlt, rfl⟩ hpost ?_ ?_ (by simpa using hroom) ?_ ?_ ?_
  · rw [h.headers]; simp
  · rw [h.footers]; simp [Block.footer]
  · apply (Mem.AgreeOff.refl _ _ _).set32
    · omega
    · simp only [Block.stop]; omega
  · intro c hc
    obtain rfl := List.mem_singleton.mp hc
    constructor
    · exact (Mem.get32_set32_of_apart _ _ (by simp only; omega)).trans hb.size
    · exact (Mem.get32_set32_of_apart _ _ (by simp only; omega)).trans hb.toFooter
    · exact Mem.get32_set32_self _ _ hval
    · exact (Mem.get32_set32_of_apart _ _ (by simp only; omega)).trans hb.magic32
    · exact (Mem.get32_set32_of_apart _ _ (by simp only [Block.footer]; omega)).trans hb.toHeader
    · exact (Mem.get64_set32_of_apart _ _ (by simp only [Block.footer]; omega)).trans hb.magic64
  · intro c hc
    obtain rfl := List.mem_singleton.mp hc
    exact h.aligned b (by simp)

/-! ## Splitting -/

/-- The two blocks a free block of at least `size + 32` bytes is cut into. -/
def cut (b : Block) (size : Nat) : List Block :=
  [⟨b.addr, size, true⟩, ⟨b.addr + 32 + size, b.size - size - 32, false⟩]

theorem cut_tiles {size : Nat} (hs : size + 32 ≤ b.size) :
    Tiles Block.addr Block.stop b.addr (cut b size) b.stop := by
  refine ⟨rfl, ?_, rfl, ?_, ?_⟩
  · show b.addr < b.addr + 32 + size
    omega
  · show b.addr + 32 + size < b.addr + 32 + size + 32 + (b.size - size - 32)
    omega
  · show b.addr + 32 + size + 32 + (b.size - size - 32) = b.addr + 32 + b.size
    omega

theorem split_tags {m : Mem} {size : Nat} (ht : Tags m b) (hs : size + 32 ≤ b.size)
    (hb : b.addr + 32 + b.size ≤ 4294967296) :
    (∀ c ∈ cut b size, Tags (splitTags m b.addr b.footer size) c) ∧
      Mem.AgreeOff m (splitTags m b.addr b.footer size) b.addr b.stop := by
  have hnf : wadd (wadd b.addr size) sizeofHeader = b.addr + 16 + size := by
    simp only [wadd, sizeofHeader]; omega
  have hnh : wadd (b.addr + 16 + size) sizeofFooter = b.addr + 32 + size := by
    simp only [wadd, sizeofFooter]; omega
  have hm32 : kheapMagic32 < 4294967296 := by decide
  have hm64 : kheapMagic64 < 18446744073709551616 := by decide
  have hsize := ht.size
  have hmagic := ht.magic32
  have hmagic' := ht.magic64
  simp only [headerSize, headerMagic, footerMagic, Block.footer] at hsize hmagic hmagic'
  have hrest : ∀ m' : Mem, m'.get32 b.addr = b.size →
      wsub (m'.get32 b.addr) (wadd (wadd size sizeofHeader) sizeofFooter) = b.size - size - 32 := by
    intro m' hm'
    rw [hm']
    simp only [wadd, wsub, sizeofHeader, sizeofFooter]
    omega
  simp only [splitTags, hnf, hnh, setFooterHeader, setFooterMagic, setFooterRes, setHeaderSize,
    setHeaderFooter, setHeaderUsed, setHeaderMagic, headerSize, Block.footer, Block.stop]
  rw [hrest _ (by
    rw [Mem.get32_set32_of_apart _ _ (by omega), Mem.get32_set64_of_apart _ _ (by omega),
      Mem.get32_set32_of_apart _ _ (by omega), hsize])]
  refine ⟨fun c hc => ?_, ?_⟩
  · rcases List.mem_cons.mp hc with rfl | hc
    · constructor <;>
        simp (disch := omega) [headerSize, headerFooter, headerUsed, headerMagic, footerHeader,
          footerMagic, Block.footer, Mem.get32_set32_of_apart, Mem.get64_set32_of_apart,
          Mem.get32_set64_of_apart, hmagic]
    · obtain rfl := List.mem_singleton.mp hc
      have hoff : b.addr + 32 + size + 16 + (b.size - size - 32) = b.addr + 16 + b.size := by omega
      constructor <;>
        simp (disch := omega) [headerSize, headerFooter, headerUsed, headerMagic, footerHeader,
          footerMagic, Block.footer, Mem.get32_set32_of_apart, Mem.get64_set32_of_apart,
          Mem.get64_set64_of_apart, hoff, hmagic']
  · have h0 := Mem.AgreeOff.refl m b.addr (b.addr + 32 + b.size)
    repeat first
      | exact h0
      | refine Mem.AgreeOff.set32 ?_ _ (by omega) (by omega)

/-- The address a cut block's remainder starts at goes between the headers around it. -/
theorem insert_between {a : OrderedArray} {l r : List Nat} {v : Nat} (he : a.entries = l ++ r)
    (hp : a.predicate = lessPredicate) (hroom : a.size < a.maxSize) (hl : ∀ x ∈ l, x ≤ v)
    (hr : ∀ x ∈ r, v < x) : (a.insert v).1.entries = l ++ v :: r := by
  refine (OrderedArray.insert_entries he hroom (fun x hx => ?_) (fun x hx => ?_)).1
  · have := hl x hx
    simp [hp, lessPredicate, this]
  · have := hr x hx
    simp [hp, lessPredicate, this]

/-- `alloc_from_block` on a free block with room for a remainder, when it splits. -/
theorem allocFromBlock_split {size : Nat} (h : Layout heap (pre ++ b :: post))
    (hsplit : takesWhole b.size size = false) (hs : size + 32 ≤ b.size) (ha : size % 16 = 0)
    (hroom : heap.headerArray.size < heap.headerArray.maxSize) :
    Layout (allocFromBlock heap b.addr b.footer size).1 (pre ++ (cut b size ++ post)) ∧
      (allocFromBlock heap b.addr b.footer size).2 = b.addr := by
  have ht := h.tags b (by simp)
  obtain ⟨hlo, hhi, hend⟩ := h.bounds (b := b) (by simp)
  obtain ⟨hpre, hlt, hpost⟩ := h.tiles.around
  have hfsize := h.footer_length.trans h.header_length.symm
  have hmax := h.sameMax
  have hal := h.aligned b (by simp)
  have hsize : headerSize heap.mem b.addr = b.size := ht.size
  have hnf : wadd (wadd b.addr size) sizeofHeader = b.addr + 16 + size := by
    simp only [wadd, sizeofHeader]; omega
  have hnh : wadd (b.addr + 16 + size) sizeofFooter = b.addr + 32 + size := by
    simp only [wadd, sizeofFooter]; omega
  have hlen : heap.headerArray.size = pre.length + 1 + post.length := by
    rw [h.header_length, List.length_append, List.length_cons]; omega
  obtain ⟨htags, hagree⟩ := split_tags ht hs (by omega)
  simp only [allocFromBlock, hsize, hsplit, Bool.false_eq_true, ↓reduceIte, hnf, hnh, and_true]
  refine h.rebuild [b] _ ⟨rfl, rfl, rfl, by simp, by simp, by simp, by simp⟩ hpre
    (cut_tiles hs) hpost ?_ ?_ ?_ hagree htags ?_
  · have hins := insert_between (a := heap.headerArray) (l := pre.map Block.addr ++ [b.addr])
      (r := post.map Block.addr) (v := b.addr + 32 + size) (by rw [h.headers]; simp)
      h.headerOrder hroom ?_ ?_
    · simp only [hins]
      simp [cut]
    · intro x hx
      rcases List.mem_append.mp hx with hx | hx
      · obtain ⟨c, hc, rfl⟩ := List.mem_map.mp hx
        have := hpre.mem_bounds hc
        omega
      · obtain rfl := List.mem_singleton.mp hx
        omega
    · intro x hx
      obtain ⟨c, hc, rfl⟩ := List.mem_map.mp hx
      have hstop := (hpost.mem_bounds hc).1
      simp only [Block.stop] at hstop
      omega
  · have hins := insert_between (a := heap.footerArray) (l := pre.map Block.footer)
      (r := b.footer :: post.map Block.footer) (v := b.addr + 16 + size) (by rw [h.footers]; simp)
      h.footerOrder (by omega) ?_ ?_
    · have hrest : b.addr + 32 + size + 16 + (b.size - size - 32) = b.addr + 16 + b.size := by omega
      simp only [hins]
      simp [cut, Block.footer, hrest]
    · intro x hx
      obtain ⟨c, hc, rfl⟩ := List.mem_map.mp hx
      have hstop := (hpre.mem_bounds hc).2.2
      simp only [Block.stop] at hstop
      simp only [Block.footer]
      omega
    · intro x hx
      rcases List.mem_cons.mp hx with rfl | hx
      · simp only [Block.footer]
        omega
      · obtain ⟨c, hc, rfl⟩ := List.mem_map.mp hx
        have hstop := (hpost.mem_bounds hc).1
        simp only [Block.stop] at hstop
        simp only [Block.footer]
        omega
  · simp only [cut, List.length_append, List.length_cons, List.length_nil]
    omega
  · intro c hc
    rcases List.mem_cons.mp hc with rfl | hc
    · exact ⟨hal.1, ha⟩
    · obtain rfl := List.mem_singleton.mp hc
      simp only
      omega

/-- `alloc_from_block` on a free block that it hands out whole. -/
theorem allocFromBlock_whole {size : Nat} (h : Layout heap (pre ++ b :: post))
    (hwhole : takesWhole b.size size = true) :
    Layout (allocFromBlock heap b.addr b.footer size).1 (pre ++ { b with used := true } :: post) ∧
      (allocFromBlock heap b.addr b.footer size).2 = b.addr := by
  have hsize : headerSize heap.mem b.addr = b.size := (h.tags b (by simp)).size
  simp only [allocFromBlock, hsize, hwhole, ↓reduceIte, and_true]
  exact h.mark true

/-! ## Merging -/

/-- Two neighbours as one block, with the mark of the first. -/
def fuse (l r : Block) : Block := ⟨l.addr, l.size + r.size + 32, l.used⟩

theorem fuse_stop {l r : Block} (h : l.stop = r.addr) : (fuse l r).stop = r.stop := by
  simp only [Block.stop] at h
  show l.addr + 32 + (l.size + r.size + 32) = r.addr + 32 + r.size
  omega

theorem fuse_footer {l r : Block} (h : l.stop = r.addr) : (fuse l r).footer = r.footer := by
  simp only [Block.stop] at h
  show l.addr + 16 + (l.size + r.size + 32) = r.addr + 16 + r.size
  omega

/-- The tags after two neighbours are fused, whatever else is cleared: what is left to
check is the fused size, the footer pointer and the way back. -/
theorem fuse_tags {m m' : Mem} {l r : Block} (hl : Tags m l) (hr : Tags m r) (h : l.stop = r.addr)
    (hsize : headerSize m' l.addr = l.size + r.size + 32)
    (hfooter : headerFooter m' l.addr = r.footer) (hheader : footerHeader m' r.footer = l.addr)
    (hkept : headerUsed m' l.addr = headerUsed m l.addr ∧
      headerMagic m' l.addr = headerMagic m l.addr ∧ footerMagic m' r.footer = footerMagic m r.footer) :
    Tags m' (fuse l r) := by
  constructor
  · exact hsize
  · rw [fuse_footer h]; exact hfooter
  · exact hkept.1.trans hl.used
  · exact hkept.2.1.trans hl.magic32
  · rw [fuse_footer h]; exact hheader
  · rw [fuse_footer h]; exact hkept.2.2.trans hr.magic64

theorem wadd_sizes {x y : Nat} (h : x + y + 32 < 4294967296) :
    wadd x (wadd (wadd y sizeofHeader) sizeofFooter) = x + y + 32 := by
  simp only [wadd, sizeofHeader, sizeofFooter]
  omega

theorem absorbLeft_tags {m : Mem} {l : Block} (hl : Tags m l) (hb : Tags m b)
    (hadj : l.stop = b.addr) (hend : b.addr + 32 + b.size ≤ 4294967296) :
    Tags (absorbLeftTags m l.addr l.footer b.addr b.footer) (fuse l b) ∧
      Mem.AgreeOff m (absorbLeftTags m l.addr l.footer b.addr b.footer) l.addr b.stop := by
  have hadj' : l.addr + 32 + l.size = b.addr := hadj
  have hs := hl.size
  have hs' := hb.size
  simp only [headerSize] at hs hs'
  refine ⟨fuse_tags hl hb hadj ?_ ?_ ?_ ⟨?_, ?_, ?_⟩, ?_⟩
  all_goals
    simp only [absorbLeftTags, setFooterHeader, setFooterMagic, setFooterRes, setHeaderSize,
      setHeaderFooter, setHeaderUsed, setHeaderMagic, headerSize, headerFooter, headerUsed,
      headerMagic, footerHeader, footerMagic, Block.footer, Block.stop, hs, hs']
  · rw [wadd_sizes (by omega)]
    simp (disch := omega) [Mem.get32_set32_of_apart, Mem.get32_set64_of_apart]
  · simp (disch := omega) [Mem.get32_set32_of_apart, Mem.get32_set64_of_apart]
  · simp (disch := omega) [Mem.get32_set32_of_apart, Mem.get32_set64_of_apart]
  · simp (disch := omega) [Mem.get32_set32_of_apart, Mem.get32_set64_of_apart]
  · simp (disch := omega) [Mem.get32_set32_of_apart, Mem.get32_set64_of_apart]
  · simp (disch := omega) [Mem.get64_set32_of_apart, Mem.get64_set64_of_apart]
  · have h0 := Mem.AgreeOff.refl m l.addr (b.addr + 32 + b.size)
    repeat first
      | exact h0
      | refine Mem.AgreeOff.set32 ?_ _ (by omega) (by omega)

theorem absorbRight_tags {m : Mem} {r : Block} (hb : Tags m b) (hr : Tags m r)
    (hadj : b.stop = r.addr) (hend : r.addr + 32 + r.size ≤ 4294967296) :
    Tags (absorbRightTags m b.addr b.footer r.addr r.footer) (fuse b r) ∧
      Mem.AgreeOff m (absorbRightTags m b.addr b.footer r.addr r.footer) b.addr r.stop := by
  have hadj' : b.addr + 32 + b.size = r.addr := hadj
  have hs := hb.size
  have hs' := hr.size
  simp only [headerSize] at hs hs'
  refine ⟨fuse_tags hb hr hadj ?_ ?_ ?_ ⟨?_, ?_, ?_⟩, ?_⟩
  all_goals
    simp only [absorbRightTags, setFooterHeader, setFooterMagic, setFooterRes, setHeaderSize,
      setHeaderFooter, setHeaderUsed, setHeaderMagic, headerSize, headerFooter, headerUsed,
      headerMagic, footerHeader, footerMagic, Block.footer, Block.stop, hs, hs']
  · rw [wadd_sizes (by omega)]
    simp (disch := omega) [Mem.get32_set32_of_apart, Mem.get32_set64_of_apart]
  · simp (disch := omega) [Mem.get32_set32_of_apart, Mem.get32_set64_of_apart]
  · simp (disch := omega) [Mem.get32_set32_of_apart, Mem.get32_set64_of_apart]
  · simp (disch := omega) [Mem.get32_set32_of_apart, Mem.get32_set64_of_apart]
  · simp (disch := omega) [Mem.get32_set32_of_apart, Mem.get32_set64_of_apart]
  · simp (disch := omega) [Mem.get64_set32_of_apart, Mem.get64_set64_of_apart]
  · have h0 := Mem.AgreeOff.refl m b.addr (r.addr + 32 + r.size)
    repeat first
      | exact h0
      | refine Mem.AgreeOff.set32 ?_ _ (by omega) (by omega)

/-- What `unify_left` may do to a block and the blocks before it. -/
inductive LeftMerge : List Block → Block → List Block → Block → Prop
  | keep {pre : List Block} {b : Block} : (∀ l ∈ pre.getLast?, l.used = true) →
      LeftMerge pre b pre b
  | merge {pre : List Block} {l b : Block} : l.used = false → l.stop = b.addr →
      LeftMerge (pre ++ [l]) b pre (fuse l b)

/-- What `unify_right` may do to a block and the blocks after it. -/
inductive RightMerge : Block → List Block → Block → List Block → Prop
  | keep {b : Block} {post : List Block} : (∀ r ∈ post.head?, r.used = true) →
      RightMerge b post b post
  | merge {post : List Block} {b r : Block} : r.used = false → b.stop = r.addr →
      RightMerge b (r :: post) (fuse b r) post

/-- Fusing two neighbours in memory and dropping the inner footer and header from the
arrays fuses them in the layout. -/
theorem fuse_layout {heap' : Heap} {l r : Block} (h : Layout heap (pre ++ l :: r :: post))
    (hm : heap' = { heap with
      mem := heap'.mem
      footerArray := heap.footerArray.remove pre.length
      headerArray := heap.headerArray.remove (pre.length + 1) })
    (htags : Tags heap'.mem (fuse l r)) (hagree : Mem.AgreeOff heap.mem heap'.mem l.addr r.stop) :
    Layout heap' (pre ++ fuse l r :: post) := by
  obtain ⟨hpre, hlt, hr, hlt', hpost⟩ := h.tiles.around
  have hl := h.aligned l (by simp)
  have hr' := h.aligned r (by simp)
  have hcap := h.capacity
  have hmax := h.maxBound
  have hsame := h.header_length.trans h.footer_length.symm
  have hlen := h.header_length
  simp only [List.length_append, List.length_cons] at hlen
  have hheaders : heap.headerArray.entries =
      (pre.map Block.addr ++ [l.addr]) ++ r.addr :: post.map Block.addr := by
    rw [h.headers]; simp
  have hfooters : heap.footerArray.entries =
      pre.map Block.footer ++ l.footer :: (r.footer :: post.map Block.footer) := by
    rw [h.footers]; simp
  have hdropH := OrderedArray.remove_entries hheaders (by omega)
  have hdropF := OrderedArray.remove_entries hfooters (by omega)
  simp only [List.length_append, List.length_map, List.length_cons, List.length_nil] at hdropH hdropF
  have hkept : Kept heap heap' := by
    rw [hm]
    exact ⟨rfl, rfl, rfl, rfl, rfl, rfl, rfl⟩
  have hfused : Tiles Block.addr Block.stop l.addr [fuse l r] r.stop := by
    refine ⟨rfl, ?_, fuse_stop hr.symm⟩
    show l.addr < l.addr + 32 + (l.size + r.size + 32)
    omega
  refine h.rebuild [l, r] _ hkept hpre hfused hpost ?_ ?_ ?_ hagree ?_ ?_
  · rw [hm]
    simp only [hdropH]
    simp [fuse]
  · rw [hm]
    simp only [hdropF]
    simp [fuse_footer hr.symm]
  · simp only [List.length_append, List.length_cons, List.length_nil]
    omega
  · intro c hc
    obtain rfl := List.mem_singleton.mp hc
    exact htags
  · intro c hc
    obtain rfl := List.mem_singleton.mp hc
    refine ⟨hl.1, ?_⟩
    show (l.size + r.size + 32) % 16 = 0
    omega

/-! What the two halves of `unify` do, by the neighbour they find. -/

theorem unifyLeft_first (h : Layout heap (b :: post)) :
    unifyLeft heap b.addr b.footer = (heap, b.addr) := by
  have hidx : heap.headerArray.find b.addr = 0 := @find_header heap [] post b h
  simp [unifyLeft, hidx]

theorem unifyLeft_used {l : Block} (h : Layout heap (pre ++ l :: b :: post))
    (hu : l.used = true) : unifyLeft heap b.addr b.footer = (heap, b.addr) := by
  have hidx : heap.headerArray.find b.addr = pre.length + 1 := by
    have h' : Layout heap ((pre ++ [l]) ++ b :: post) := by simpa using h
    rw [h'.find_header, List.length_append, List.length_singleton]
  have hprev : heap.headerArray.get pre.length = l.addr := h.get_header
  have hused : headerUsed heap.mem l.addr = 1 := by rw [(h.tags l (by simp)).used, hu]; rfl
  simp [unifyLeft, hidx, hprev, hused]

theorem unifyLeft_free {l : Block} (h : Layout heap (pre ++ l :: b :: post))
    (hu : l.used = false) : unifyLeft heap b.addr b.footer =
      ({ heap with
          mem := absorbLeftTags heap.mem l.addr l.footer b.addr b.footer
          footerArray := heap.footerArray.remove pre.length
          headerArray := heap.headerArray.remove (pre.length + 1) }, l.addr) := by
  have hidx : heap.headerArray.find b.addr = pre.length + 1 := by
    have h' : Layout heap ((pre ++ [l]) ++ b :: post) := by simpa using h
    rw [h'.find_header, List.length_append, List.length_singleton]
  have hprev : heap.headerArray.get pre.length = l.addr := h.get_header
  have hfoot : headerFooter heap.mem l.addr = l.footer := (h.tags l (by simp)).toFooter
  have hused : headerUsed heap.mem l.addr = 0 := by rw [(h.tags l (by simp)).used, hu]; rfl
  simp [unifyLeft, hidx, hprev, hfoot, hused]

/-- The index of the last header. -/
theorem last_index (h : Layout heap (pre ++ b :: post)) :
    wsub heap.headerArray.size 1 = pre.length + post.length := by
  have hcap := h.capacity
  have hmax := h.maxBound
  have hlen := h.header_length
  simp only [List.length_append, List.length_cons] at hlen
  rw [wsub_of_le (by omega) (by omega)]
  omega

theorem unifyRight_last (h : Layout heap (pre ++ [b])) :
    unifyRight heap b.addr b.footer = (heap, b.footer) := by
  have hidx : heap.headerArray.find b.addr = pre.length := h.find_header
  simp [unifyRight, hidx, h.last_index]

theorem unifyRight_used {r : Block} (h : Layout heap (pre ++ b :: r :: post))
    (hu : r.used = true) : unifyRight heap b.addr b.footer = (heap, b.footer) := by
  have hidx : heap.headerArray.find b.addr = pre.length := h.find_header
  have hnext : heap.headerArray.get (pre.length + 1) = r.addr := by
    have h' : Layout heap ((pre ++ [b]) ++ r :: post) := by simpa using h
    simpa using h'.get_header
  have hused : headerUsed heap.mem r.addr = 1 := by rw [(h.tags r (by simp)).used, hu]; rfl
  simp [unifyRight, hidx, hnext, hused]

theorem unifyRight_free {r : Block} (h : Layout heap (pre ++ b :: r :: post))
    (hu : r.used = false) : unifyRight heap b.addr b.footer =
      ({ heap with
          mem := absorbRightTags heap.mem b.addr b.footer r.addr r.footer
          footerArray := heap.footerArray.remove pre.length
          headerArray := heap.headerArray.remove (pre.length + 1) }, r.footer) := by
  have hidx : heap.headerArray.find b.addr = pre.length := h.find_header
  have hnext : heap.headerArray.get (pre.length + 1) = r.addr := by
    have h' : Layout heap ((pre ++ [b]) ++ r :: post) := by simpa using h
    simpa using h'.get_header
  have hfoot : headerFooter heap.mem r.addr = r.footer := (h.tags r (by simp)).toFooter
  have hused : headerUsed heap.mem r.addr = 0 := by rw [(h.tags r (by simp)).used, hu]; rfl
  simp [unifyRight, hidx, h.last_index, hnext, hfoot, hused]

theorem unifyLeft_layout (h : Layout heap (pre ++ b :: post)) :
    ∃ pre' b', Layout (unifyLeft heap b.addr b.footer).1 (pre' ++ b' :: post) ∧
      (unifyLeft heap b.addr b.footer).2 = b'.addr ∧ b'.footer = b.footer ∧
      LeftMerge pre b pre' b' ∧
      Mem.AgreeOff heap.mem (unifyLeft heap b.addr b.footer).1.mem b'.addr b'.stop := by
  rcases pre.eq_nil_or_concat' with rfl | ⟨pre, l, rfl⟩
  · rw [unifyLeft_first h]
    exact ⟨[], b, h, rfl, rfl, .keep (by simp), .refl _ _ _⟩
  · rw [List.append_assoc, List.singleton_append] at h
    obtain ⟨-, -, hadj, -, -⟩ := h.tiles.around
    have hbound := h.bounds (b := b) (by simp)
    cases hu : l.used with
    | true =>
      rw [unifyLeft_used h hu]
      exact ⟨pre ++ [l], b, by simpa using h, rfl, rfl, .keep (by simp [hu]), .refl _ _ _⟩
    | false =>
      obtain ⟨htags, hagree⟩ := absorbLeft_tags (h.tags l (by simp)) (h.tags b (by simp)) hadj.symm
        (by omega)
      rw [unifyLeft_free h hu]
      refine ⟨pre, fuse l b, fuse_layout h rfl htags hagree, rfl, fuse_footer hadj.symm,
        .merge hu hadj.symm, ?_⟩
      rw [fuse_stop hadj.symm]
      exact hagree

theorem unifyRight_layout (h : Layout heap (pre ++ b :: post)) :
    ∃ b' post', Layout (unifyRight heap b.addr b.footer).1 (pre ++ b' :: post') ∧
      b'.addr = b.addr ∧ RightMerge b post b' post' ∧
      Mem.AgreeOff heap.mem (unifyRight heap b.addr b.footer).1.mem b'.addr b'.stop := by
  cases post with
  | nil =>
    rw [unifyRight_last h]
    exact ⟨b, [], h, rfl, .keep (by simp), .refl _ _ _⟩
  | cons r post =>
    obtain ⟨-, -, hadj, -, -⟩ := h.tiles.around
    have hbound := h.bounds (b := r) (by simp)
    cases hu : r.used with
    | true =>
      rw [unifyRight_used h hu]
      exact ⟨b, r :: post, h, rfl, .keep (by simp [hu]), .refl _ _ _⟩
    | false =>
      obtain ⟨htags, hagree⟩ := absorbRight_tags (h.tags b (by simp)) (h.tags r (by simp)) hadj.symm
        (by omega)
      rw [unifyRight_free h hu]
      refine ⟨fuse b r, post, fuse_layout h rfl htags hagree, rfl, .merge hu hadj.symm, ?_⟩
      rw [fuse_stop hadj.symm]
      exact hagree

/-- The block grows at its low end only, where it stops stays. -/
theorem LeftMerge.stop {pre pre' : List Block} {b b' : Block} (h : LeftMerge pre b pre' b') :
    b'.addr ≤ b.addr ∧ b'.stop = b.stop := by
  cases h with
  | keep _ => exact ⟨Nat.le_refl _, rfl⟩
  | @merge _ l _ _ hadj =>
    refine ⟨?_, fuse_stop hadj⟩
    simp only [Block.stop] at hadj
    show l.addr ≤ b.addr
    omega

/-- The block grows at its high end only. -/
theorem RightMerge.stop {post post' : List Block} {b b' : Block} (h : RightMerge b post b' post') :
    b'.addr = b.addr ∧ b.stop ≤ b'.stop := by
  cases h with
  | keep _ => exact ⟨rfl, Nat.le_refl _⟩
  | @merge _ _ r _ hadj =>
    refine ⟨rfl, ?_⟩
    rw [fuse_stop hadj, hadj]
    simp only [Block.stop]
    omega

/-- `free` on a block of the heap passes its checks. -/
theorem free_eq_unify (h : Layout heap bs) (hb : b ∈ bs) :
    free heap b.payload = unify heap b.addr b.footer := by
  have hbound := h.bounds hb
  have hheader : wsub b.payload sizeofHeader = b.addr := by
    simp only [wsub, Block.payload, sizeofHeader]
    omega
  have hfooter : headerFooter heap.mem b.addr = b.footer := (h.tags b hb).toFooter
  simp [free, hheader, hfooter, h.prechecks, h.checks hb]

/-- `free` on a block of the heap merges it with its free neighbours and marks it free;
nothing outside the merged block is written. -/
theorem free_layout (h : Layout heap (pre ++ b :: post)) :
    ∃ pre' b₁ b₂ post', Layout (free heap b.payload) (pre' ++ { b₂ with used := false } :: post') ∧
      LeftMerge pre b pre' b₁ ∧ RightMerge b₁ post b₂ post' ∧
      Mem.AgreeOff heap.mem (free heap b.payload).mem b₂.addr b₂.stop := by
  obtain ⟨pre', b₁, hleft, haddr₁, hfoot₁, hl, hagree₁⟩ := h.unifyLeft_layout
  obtain ⟨b₂, post', hright, haddr₂, hr, hagree₂⟩ := hleft.unifyRight_layout
  have hfree : free heap b.payload =
      { (unifyRight (unifyLeft heap b.addr b.footer).1 b₁.addr b₁.footer).1 with
        mem := setHeaderUsed
          (unifyRight (unifyLeft heap b.addr b.footer).1 b₁.addr b₁.footer).1.mem b₂.addr 0 } := by
    rw [h.free_eq_unify (by simp), unify]
    simp only [haddr₁, haddr₂, hfoot₁]
  refine ⟨pre', b₁, b₂, post', ?_, hl, hr, ?_⟩
  · rw [hfree]
    exact hright.mark false
  · rw [hfree]
    obtain ⟨-, hstop⟩ := hr.stop
    refine Mem.AgreeOff.set32 ?_ 0 (by omega) (by simp only [Block.stop]; omega)
    exact (hagree₁.mono (Nat.le_of_eq haddr₂) hstop).trans hagree₂

end Layout

end BrownieOS.Mm
