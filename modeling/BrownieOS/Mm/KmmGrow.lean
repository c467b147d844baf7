import BrownieOS.Mm.KmmContract

/-!
# A heap that is only allocated from

While nothing is freed, the used blocks come first and one last block may still be free.
Once the header array is full a split loses the remainder, and then every block the array
names is used: `kmalloc` fails from there on. Either way no block is handed out twice.
-/
namespace BrownieOS.Mm

open BrownieOS.Lib BrownieOS.Lib.Word32 BrownieOS.Core

/-- Every block that the header array names is used. -/
def Exhausted (heap : Heap) : Prop :=
  ∀ i < heap.headerArray.size, headerUsed heap.mem (heap.headerArray.get i) ≠ 0

/-- The heap with the blocks handed out so far. -/
structure GrownHeap (heap : Heap) (live : List Nat) : Prop where
  distinct : live.Nodup
  nonNull : 0 ∉ live
  shape : (∃ bs b, HeapInv heap live (bs ++ [b]) ∧ ∀ c ∈ bs, c.used = true) ∨ Exhausted heap

variable {heap : Heap} {live : List Nat} {bs : List Block} {b : Block} {size : Nat}

/-- The heap of `kheap_init` has one free block. -/
theorem GrownHeap.init {mem : Mem} {framemap framemap' : FrameMap}
    (h0 : framemap.test 0 = true) (h : kheapInit mem framemap = some (heap, framemap')) :
    GrownHeap heap [] where
  distinct := List.nodup_nil
  nonNull := List.not_mem_nil
  shape := Or.inl ⟨[], _, HeapInv.init h0 h, nofun⟩

/-- What is used before `kheap_init` is used after it. -/
theorem kheapInit_used {mem : Mem} {framemap framemap' : FrameMap} (h0 : framemap.test 0 = true)
    (h : kheapInit mem framemap = some (heap, framemap')) (f : Nat) (hf : framemap.test f = true) :
    framemap'.test f = true := by
  unfold kheapInit at h
  split at h
  · cases h
  · rename_i base fm halloc
    obtain ⟨-, rfl⟩ := Prod.mk.inj (Option.some.inj h)
    rcases allocPages_cases h0 halloc with ⟨-, rfl⟩ | hnew
    · exact hf
    · rw [hnew.marked, Bitmap.test_setRange (by decide), hf]
      exact Bool.or_true _

theorem allocSearch_exhausted (h : Exhausted heap) :
    ∀ n i, i + n ≤ heap.headerArray.size → allocSearch heap size i n = (heap, 0) := by
  intro n
  induction n with
  | zero => exact fun _ _ => rfl
  | succ n ih =>
    intro i hi
    rw [allocSearch]
    dsimp only
    rw [if_pos (Or.inl (h i (by omega)))]
    exact ih (i + 1) (by omega)

theorem kmalloc_exhausted (h : Exhausted heap) : kmalloc heap size = (heap, 0) := by
  unfold kmalloc alloc
  split
  · rfl
  split
  · rfl
  · exact allocSearch_exhausted h _ _ (by omega)

theorem Layout.exists_header (hl : Layout heap bs) {i : Nat} (hi : i < heap.headerArray.size) :
    ∃ c ∈ bs, heap.headerArray.get i = c.addr := by
  have hlen : i < bs.length := by
    rw [← hl.header_length]
    exact hi
  refine ⟨bs.get ⟨i, hlen⟩, List.get_mem _ _, ?_⟩
  rw [OrderedArray.get, OrderedArray.array_of_entries hl.headers (by simpa using hlen)]
  simp

/-- A split for which the arrays have no room leaves no free block named. -/
theorem exhausted_of_split (hi : HeapInv heap live (bs ++ [b])) (hbs : ∀ c ∈ bs, c.used = true)
    (hsplit : takesWhole b.size size = false) (hs : size + 32 ≤ b.size)
    (hfull : ¬ heap.headerArray.size < heap.headerArray.maxSize) :
    Exhausted (allocFromBlock heap b.addr b.footer size).1 ∧
      (allocFromBlock heap b.addr b.footer size).2 = b.addr := by
  have hl := hi.layout
  have ht := hl.tags b (by simp)
  obtain ⟨-, hend, -⟩ := hl.bounds (b := b) (by simp)
  have hbound := hl.bound
  obtain ⟨htags, hagree⟩ := Layout.split_tags ht hs (by omega)
  have hsize : headerSize heap.mem b.addr = b.size := ht.size
  have hkeep : (heap.headerArray.insert (wadd (wadd (wadd b.addr size) sizeofHeader)
      sizeofFooter)).1 = heap.headerArray := by
    unfold OrderedArray.insert
    rw [if_neg hfull]
  simp only [allocFromBlock, hsize, hsplit, Bool.false_eq_true, ↓reduceIte, hkeep, and_true]
  intro i hi'
  obtain ⟨c, hc, hget⟩ := hl.exists_header hi'
  rw [hget]
  rcases List.mem_append.1 hc with hmem | hmem
  · have hc := hl.tags _ (List.mem_append_left [b] hmem)
    have hbefore := hl.order.1 _ hmem
    rw [(hc.of_agree hagree (Or.inl hbefore)).used, hbs _ hmem]
    decide
  · rw [List.mem_singleton.1 hmem, show b.addr = (⟨b.addr, size, true⟩ : Block).addr from rfl,
      (htags ⟨b.addr, size, true⟩ (by simp [Layout.cut])).used]
    simp

/-- The block taken from the end of the heap, whole, or split with room for the rest, or split
without. -/
theorem HeapInv.take_last (hi : HeapInv heap live (bs ++ [b])) (hbs : ∀ c ∈ bs, c.used = true)
    (hu : b.used = false) (hsize : 96 ≤ size) (ha : size % 16 = 0) (hfit : size ≤ b.size) :
    ∃ heap', Mm.allocFromBlock heap b.addr b.footer size = (heap', b.addr) ∧
      ((∃ bs' b', HeapInv heap' (b.payload :: live) (bs' ++ [b']) ∧ ∀ c ∈ bs', c.used = true) ∨
        Exhausted heap') := by
  have hl := hi.layout
  obtain ⟨-, hend, -⟩ := hl.bounds (b := b) (by simp)
  have hbound := hl.bound
  cases hw : takesWhole b.size size with
  | true =>
    have htaken := hl.allocFromBlock_whole hw
    rcases hres : Mm.allocFromBlock heap b.addr b.footer size with ⟨heap', ret⟩
    rw [hres] at htaken
    obtain ⟨hlay, rfl⟩ := htaken
    refine ⟨heap', rfl, Or.inl ⟨bs, { b with used := true }, ?_, hbs⟩⟩
    exact hi.take hu (show Layout _ (bs ++ ([{ b with used := true }] ++ [])) from hlay)
      (by simp [Separated]) ⟨_, [], rfl, rfl, rfl, by simp [Holds]⟩
  | false =>
    have hs : size + 32 ≤ b.size := by
      have hno : ¬ size ≥ wsub (wsub (wsub b.size sizeofHeader) sizeofFooter) 64 := by
        simpa [takesWhole] using hw
      simp only [sizeofHeader, sizeofFooter, wsub] at hno
      omega
    by_cases hroom : heap.headerArray.size < heap.headerArray.maxSize
    · have htaken := hl.allocFromBlock_split hw hs ha hroom
      rcases hres : Mm.allocFromBlock heap b.addr b.footer size with ⟨heap', ret⟩
      rw [hres] at htaken
      obtain ⟨hlay, rfl⟩ := htaken
      have hinv := hi.take hu hlay (by simp [Separated, Layout.cut])
        ⟨_, [_], rfl, rfl, rfl, by simp [Holds]⟩
      rw [List.append_nil, Layout.cut, List.append_cons] at hinv
      refine ⟨heap', rfl, Or.inl ⟨_, _, hinv, ?_⟩⟩
      intro d hd
      rcases List.mem_append.1 hd with hd | hd
      · exact hbs d hd
      · rw [List.mem_singleton.1 hd]
    · have htaken := exhausted_of_split hi hbs hw hs hroom
      rcases hres : Mm.allocFromBlock heap b.addr b.footer size with ⟨heap', ret⟩
      rw [hres] at htaken
      obtain ⟨hex, rfl⟩ := htaken
      exact ⟨heap', rfl, Or.inr hex⟩

/-- Where the used blocks come first, a free one is the last. -/
theorem last_of_free {l r : List Block} {c : Block} (hbs : ∀ c ∈ bs, c.used = true)
    (heq : bs ++ [b] = l ++ c :: r) (hu : c.used = false) : c = b := by
  have hc : c ∈ bs ++ [b] := by
    rw [heq]
    simp
  rcases List.mem_append.1 hc with hc | hc
  · rw [hbs c hc] at hu
    cases hu
  · exact List.mem_singleton.1 hc

/-- A `kmalloc` of at least 96 bytes keeps the shape, and what it returns was not live. -/
theorem GrownHeap.kmalloc (h : GrownHeap heap live) (hsize : 96 ≤ alignRequest size) (h0 : size ≠ 0) :
    (kmalloc heap size).2 = 0 ∧ GrownHeap (kmalloc heap size).1 live ∨
      (kmalloc heap size).2 ≠ 0 ∧
        GrownHeap (kmalloc heap size).1 ((kmalloc heap size).2 :: live) := by
  rcases h.shape with ⟨bs, b, hi, hbs⟩ | hex
  · have hl := hi.layout
    have hgo : Mm.kmalloc heap size =
        allocSearch heap (alignRequest size) ([] : List Block).length (bs ++ [b]).length := by
      simp [Mm.kmalloc, alloc, h0, hl.prechecks, hl.header_length]
    rw [hgo]
    have hsearch := Layout.allocSearch_layout (show Layout heap ([] ++ (bs ++ [b])) from hl)
      (show ∀ c ∈ ([] : List Block), ¬ (c.used = false ∧ alignRequest size ≤ c.size) by simp)
    rcases hsearch with ⟨hnone, -⟩ | ⟨l, c, r, heq, -, hu, hfit, hres⟩
    · rw [hnone]
      exact Or.inl ⟨rfl, h⟩
    · obtain rfl := last_of_free hbs heq hu
      obtain ⟨-, hend, -⟩ := hl.bounds (b := c) (by simp)
      have hbound := hl.bound
      have hret : wadd c.addr sizeofHeader = c.payload :=
        wadd_of_lt (by simp only [sizeofHeader]; omega)
      have hfresh : c.payload ∉ live := by
        intro hmem
        obtain ⟨d, hd, hdu, hdp⟩ := (hi.held _).1 hmem
        rw [hl.payload_inj hd (by simp) hdp, hu] at hdu
        cases hdu
      have hnonNull : 0 ∉ c.payload :: live := by
        rw [List.mem_cons, not_or]
        exact ⟨by simp [Block.payload], h.nonNull⟩
      obtain ⟨heap', htake, hshape⟩ :=
        hi.take_last hbs hu hsize (alignRequest_aligned size) hfit
      right
      rw [hres, htake, hret]
      exact ⟨by simp [Block.payload], List.nodup_cons.2 ⟨hfresh, h.distinct⟩, hnonNull, hshape⟩
  · rw [kmalloc_exhausted hex]
    exact Or.inl ⟨rfl, h⟩

end BrownieOS.Mm
