import BrownieOS.Lib.Run
import BrownieOS.Mm.FrameLedger
import BrownieOS.Mm.KmmBlocks

/-!
# The kernel heap contract over whole runs

Callers allocate and free in any order. The contract is stated on the two arrays and
the tags they name, as the code keeps them; the proof carries the block list along.
`alloc_from_block` honours it when it takes a block whole or leaves a remainder that
has room for its own tags, and for its entries in the arrays.
-/
namespace BrownieOS.Mm

open BrownieOS.Lib BrownieOS.Lib.Word32 BrownieOS.Core

/-- The number of payload bytes of the allocation at `p`, from its header. -/
def payloadSize (heap : Heap) (p : Nat) : Nat := headerSize heap.mem (p - 16)

/-- The heap as its callers rely on it; `live` are the pointers they hold. -/
structure HeapContract (heap : Heap) (live : List Nat) : Prop where
  sameSize : heap.headerArray.size = heap.footerArray.size
  nonempty : 0 < heap.headerArray.size
  first : heap.headerArray.get 0 = heap.start
  payload : ∀ i < heap.headerArray.size, heap.footerArray.get i =
    heap.headerArray.get i + 16 + headerSize heap.mem (heap.headerArray.get i)
  next : ∀ i, i + 1 < heap.headerArray.size →
    heap.headerArray.get (i + 1) = heap.footerArray.get i + 16
  last : heap.footerArray.get (heap.headerArray.size - 1) + 16 = heap.endAddr
  headersIncrease : ∀ i j, i < j → j < heap.headerArray.size →
    heap.headerArray.get i < heap.headerArray.get j
  footersIncrease : ∀ i j, i < j → j < heap.headerArray.size →
    heap.footerArray.get i < heap.footerArray.get j
  toFooter : ∀ i < heap.headerArray.size,
    headerFooter heap.mem (heap.headerArray.get i) = heap.footerArray.get i
  toHeader : ∀ i < heap.headerArray.size,
    footerHeader heap.mem (heap.footerArray.get i) = heap.headerArray.get i
  aligned : ∀ i < heap.headerArray.size, heap.headerArray.get i % 16 = 0 ∧
    headerSize heap.mem (heap.headerArray.get i) % 16 = 0
  coalesced : ∀ i, i + 1 < heap.headerArray.size →
    headerUsed heap.mem (heap.headerArray.get i) ≠ 0 ∨
      headerUsed heap.mem (heap.headerArray.get (i + 1)) ≠ 0
  liveDistinct : live.Nodup
  liveApart : ∀ p ∈ live, ∀ q ∈ live, p ≠ q →
    p + payloadSize heap p ≤ q ∨ q + payloadSize heap q ≤ p
  liveInside : ∀ p ∈ live, heap.start ≤ p ∧ p + payloadSize heap p ≤ heap.endAddr
  liveBlock : ∀ p ∈ live, ∃ i < heap.headerArray.size,
    p = heap.headerArray.get i + 16 ∧ headerUsed heap.mem (heap.headerArray.get i) ≠ 0

/-- The heap, and the pointers callers hold. -/
structure KmmState where
  heap : Heap
  live : List Nat

inductive KmmCall where
  | kmalloc (size : Nat)
  | kfree (ptr : Nat)

/-- What a call does to the heap and to the pointers callers hold. -/
def KmmState.call (s : KmmState) : KmmCall → KmmState
  | .kmalloc size =>
    let result := kmalloc s.heap size
    ⟨result.1, if result.2 = 0 then s.live else result.2 :: s.live⟩
  | .kfree ptr => ⟨kfree s.heap ptr, s.live.erase ptr⟩

/-- Sizes are 32-bit, and every pointer freed is a live result of `kmalloc`. -/
def LegalCall (s : KmmState) : KmmCall → Prop
  | .kmalloc size => size < 4294967296
  | .kfree ptr => ptr ∈ s.live

instance (s : KmmState) (c : KmmCall) : Decidable (LegalCall s c) :=
  match c with
  | .kmalloc size => inferInstanceAs (Decidable (size < 4294967296))
  | .kfree ptr => inferInstanceAs (Decidable (ptr ∈ s.live))

def KmmStep (s : KmmState) (c : KmmCall) (s' : KmmState) : Prop := LegalCall s c ∧ s' = s.call c

/-- The block at index `i` is free and large enough. -/
def Suits (heap : Heap) (size i : Nat) : Prop :=
  headerUsed heap.mem (heap.headerArray.get i) = 0 ∧
    size ≤ headerSize heap.mem (heap.headerArray.get i)

/-- The search of `alloc` stops at index `i`. -/
def FirstFit (heap : Heap) (size i : Nat) : Prop :=
  i < heap.headerArray.size ∧ Suits heap size i ∧ ∀ j < i, ¬ Suits heap size j

/-- The block the search stops at is handed out whole, or what is left of it holds a
header and a footer and the arrays have a free slot for them. -/
def CleanSplit (heap : Heap) (size : Nat) : Prop :=
  ∀ i, FirstFit heap size i →
    takesWhole (headerSize heap.mem (heap.headerArray.get i)) size = true ∨
      size + 32 ≤ headerSize heap.mem (heap.headerArray.get i) ∧
        heap.headerArray.size < heap.headerArray.maxSize

/-- The condition on the state before a call. -/
def CleanCall (s : KmmState) : KmmCall → Prop
  | .kmalloc size => size ≠ 0 → CleanSplit s.heap (alignRequest size)
  | .kfree _ => True

/-! ## The search -/

namespace Layout

variable {heap : Heap} {bs pre post : List Block} {b : Block} {size : Nat}

/-- The search stops at the first free block that is large enough, or there is none. -/
theorem allocSearch_layout : ∀ {pre post : List Block}, Layout heap (pre ++ post) →
    (∀ b ∈ pre, ¬ (b.used = false ∧ size ≤ b.size)) →
    (allocSearch heap size pre.length post.length = (heap, 0) ∧
      ∀ b ∈ pre ++ post, ¬ (b.used = false ∧ size ≤ b.size)) ∨
    ∃ l b r, pre ++ post = l ++ b :: r ∧ (∀ c ∈ l, ¬ (c.used = false ∧ size ≤ c.size)) ∧
      b.used = false ∧ size ≤ b.size ∧
      allocSearch heap size pre.length post.length =
        ((allocFromBlock heap b.addr b.footer size).1,
          wadd (allocFromBlock heap b.addr b.footer size).2 sizeofHeader) := by
  intro pre post
  induction post generalizing pre with
  | nil => exact fun _ hpre => Or.inl ⟨rfl, by simpa using hpre⟩
  | cons b post ih =>
    intro h hpre
    have ht := h.tags b (by simp)
    have hsize : headerSize heap.mem b.addr = b.size := ht.size
    have hused := ht.used
    have hstep : ¬ (b.used = false ∧ size ≤ b.size) →
        allocSearch heap size pre.length (post.length + 1) =
          allocSearch heap size (pre.length + 1) post.length := by
      intro hno
      have hskip : headerUsed heap.mem b.addr ≠ 0 ∨ headerSize heap.mem b.addr < size := by
        cases hu : b.used with
        | true => exact Or.inl (by simp [hused, hu])
        | false => exact Or.inr (by rw [hsize]; by_contra hc; exact hno ⟨hu, by omega⟩)
      simp only [allocSearch, h.get_header, if_pos hskip]
    by_cases hfit : b.used = false ∧ size ≤ b.size
    · refine Or.inr ⟨pre, b, post, rfl, hpre, hfit.1, hfit.2, ?_⟩
      have hgo : ¬ (headerUsed heap.mem b.addr ≠ 0 ∨ headerSize heap.mem b.addr < size) := by
        rw [hused, hsize, hfit.1]
        simpa using hfit.2
      have hchecks : kmmChecks heap.mem b.addr b.footer = true := h.checks (by simp)
      have hle : size ≤ headerSize heap.mem b.addr := by rw [hsize]; exact hfit.2
      simp only [List.length_cons, allocSearch, h.get_header, h.get_footer, if_neg hgo, hchecks,
        Bool.true_eq_false, ↓reduceIte, if_pos hle]
    · have h' : Layout heap ((pre ++ [b]) ++ post) := by simpa using h
      have hpre' : ∀ c ∈ pre ++ [b], ¬ (c.used = false ∧ size ≤ c.size) := by
        intro c hc
        rcases List.mem_append.mp hc with hc | hc
        · exact hpre c hc
        · obtain rfl := List.mem_singleton.mp hc
          exact hfit
      have hrest := ih h' hpre'
      simp only [List.length_append, List.length_singleton, List.append_assoc,
        List.singleton_append] at hrest
      rw [List.length_cons, hstep hfit]
      exact hrest

/-- A block as the code sees it at its index. -/
theorem suits_iff (h : Layout heap (pre ++ b :: post)) :
    Suits heap size pre.length ↔ b.used = false ∧ size ≤ b.size := by
  have ht := h.tags b (by simp)
  have hsize : headerSize heap.mem b.addr = b.size := ht.size
  have hused := ht.used
  rw [Suits, h.get_header, hsize, hused]
  cases b.used <;> simp

theorem firstFit (h : Layout heap (pre ++ b :: post)) (hu : b.used = false) (hs : size ≤ b.size)
    (hpre : ∀ c ∈ pre, ¬ (c.used = false ∧ size ≤ c.size)) : FirstFit heap size pre.length := by
  refine ⟨?_, h.suits_iff.mpr ⟨hu, hs⟩, fun j hj => ?_⟩
  · rw [h.header_length]
    simp
  · obtain ⟨l, c, r, rfl, rfl⟩ : ∃ l c r, pre = l ++ c :: r ∧ l.length = j :=
      ⟨pre.take j, pre[j], pre.drop (j + 1), by simp, by simp; omega⟩
    have h' : Layout heap (l ++ c :: (r ++ b :: post)) := by simpa using h
    rw [h'.suits_iff]
    exact hpre c (by simp)

end Layout

/-! ## Neighbours and live payloads of a block list -/

theorem separated_around {p post : List Block} {b : Block} :
    Separated (p ++ b :: post) ↔ Separated p ∧ Separated post ∧
      (∀ l ∈ p.getLast?, l.used = true ∨ b.used = true) ∧
      ∀ r ∈ post.head?, b.used = true ∨ r.used = true := by
  simp only [Separated, List.isChain_append, List.isChain_cons, List.head?_cons, Option.mem_def,
    Option.some.injEq, forall_eq']
  tauto

/-- Callers hold `p` as the payload of a used block. -/
def Holds (bs : List Block) (p : Nat) : Prop := ∃ b ∈ bs, b.used = true ∧ b.payload = p

theorem holds_append {xs ys : List Block} {p : Nat} :
    Holds (xs ++ ys) p ↔ Holds xs p ∨ Holds ys p := by
  simp only [Holds, List.mem_append, or_and_right, exists_or]

theorem holds_cons {x : Block} {ys : List Block} {p : Nat} :
    Holds (x :: ys) p ↔ (x.used = true ∧ x.payload = p) ∨ Holds ys p := by
  simp only [Holds, List.mem_cons, or_and_right, exists_or, exists_eq_left]

theorem holds_free {x : Block} {ys : List Block} {p : Nat} (h : x.used = false) :
    Holds (x :: ys) p ↔ Holds ys p := by
  simp [holds_cons, h]

/-- The block a payload belongs to is the only one with that payload. -/
theorem Layout.payload_inj {heap : Heap} {bs : List Block} (h : Layout heap bs) {x y : Block}
    (hx : x ∈ bs) (hy : y ∈ bs) (he : x.payload = y.payload) : x = y :=
  h.tiles.eq_of_start_eq hx hy (by simp only [Block.payload] at he; omega)

theorem Layout.LeftMerge.used_before {pre pre' : List Block} {b b' : Block}
    (h : LeftMerge pre b pre' b') (hs : Separated pre) :
    Separated pre' ∧ (∀ l ∈ pre'.getLast?, l.used = true) ∧ ∀ p, Holds pre p ↔ Holds pre' p := by
  cases h with
  | keep hl => exact ⟨hs, hl, fun p => Iff.rfl⟩
  | merge hu _ =>
    obtain ⟨hpre, -, hlast, -⟩ := separated_around.mp hs
    refine ⟨hpre, fun l hl => ?_, fun p => ?_⟩
    · simpa [hu] using hlast l hl
    · rw [holds_append, holds_free hu]
      simp [Holds]

theorem Layout.RightMerge.used_after {post post' : List Block} {b b' : Block}
    (h : RightMerge b post b' post') (hs : Separated post) :
    Separated post' ∧ (∀ r ∈ post'.head?, r.used = true) ∧ ∀ p, Holds post p ↔ Holds post' p := by
  cases h with
  | keep hr => exact ⟨hs, hr, fun p => Iff.rfl⟩
  | merge hu _ =>
    obtain ⟨-, hpost, -, hhead⟩ := separated_around.mp (List.nil_append (_ :: _) ▸ hs)
    refine ⟨hpost, fun r hr => ?_, fun p => holds_free hu⟩
    simpa [hu] using hhead r hr

/-! ## The run invariant -/

/-- The heap spells a list of blocks, of which the used ones are the callers'. -/
structure HeapInv (heap : Heap) (live : List Nat) (bs : List Block) : Prop where
  layout : Layout heap bs
  separated : Separated bs
  inhabited : bs ≠ []
  distinct : live.Nodup
  held : ∀ p, p ∈ live ↔ Holds bs p

theorem alignRequest_aligned (size : Nat) : alignRequest size % 16 = 0 := by
  unfold alignRequest
  split
  · simp only [wadd]
    omega
  · omega

namespace HeapInv

variable {heap heap' : Heap} {live : List Nat} {bs pre post new : List Block} {b : Block}
  {size ptr : Nat}

/-- A free block is replaced by blocks of which the first is used and at the same place. -/
theorem take (hi : HeapInv heap live (pre ++ b :: post)) (hu : b.used = false)
    (hl : Layout heap' (pre ++ (new ++ post))) (hs : Separated (new ++ post))
    (hfirst : ∃ x xs, new = x :: xs ∧ x.used = true ∧ x.payload = b.payload ∧ ∀ p, ¬ Holds xs p) :
    HeapInv heap' (b.payload :: live) (pre ++ (new ++ post)) := by
  obtain ⟨x, xs, rfl, hxu, hxp, hxs⟩ := hfirst
  obtain ⟨hpre, -, -, -⟩ := separated_around.mp hi.separated
  have hs' := separated_around (p := []).mp hs
  constructor
  · exact hl
  · exact separated_around.mpr ⟨hpre, hs'.2.1, fun _ _ => Or.inr hxu, hs'.2.2.2⟩
  · simp
  · refine List.nodup_cons.mpr ⟨fun hmem => ?_, hi.distinct⟩
    obtain ⟨c, hc, hcu, hcp⟩ := (hi.held _).mp hmem
    have hcb := hi.layout.payload_inj hc (by simp) hcp
    rw [hcb, hu] at hcu
    simp at hcu
  · intro p
    rw [List.mem_cons, hi.held p, List.cons_append, holds_append, holds_append, holds_free hu,
      holds_cons, holds_append, hxp]
    have hxs' := hxs p
    constructor
    · rintro (rfl | hp | hp)
      · exact Or.inr (Or.inl ⟨hxu, rfl⟩)
      · exact Or.inl hp
      · exact Or.inr (Or.inr (Or.inr hp))
    · rintro (hp | ⟨-, rfl⟩ | hp | hp)
      · exact Or.inr (Or.inl hp)
      · exact Or.inl rfl
      · exact absurd hp hxs'
      · exact Or.inr (Or.inr hp)

/-- `alloc_from_block` on the block the search found. -/
theorem allocFromBlock (hi : HeapInv heap live (pre ++ b :: post)) (hu : b.used = false)
    (ha : size % 16 = 0) (hclean : takesWhole b.size size = true ∨
      size + 32 ≤ b.size ∧ heap.headerArray.size < heap.headerArray.maxSize) :
    ∃ heap' bs, Mm.allocFromBlock heap b.addr b.footer size = (heap', b.addr) ∧
      HeapInv heap' (b.payload :: live) bs := by
  obtain ⟨-, hpost, -, hnext⟩ := separated_around.mp hi.separated
  have hnext' : ∀ r ∈ post.head?, r.used = true := fun r hr => by simpa [hu] using hnext r hr
  cases hw : takesWhole b.size size with
  | true =>
    have htaken := hi.layout.allocFromBlock_whole hw
    rcases hres : Mm.allocFromBlock heap b.addr b.footer size with ⟨heap', ret⟩
    rw [hres] at htaken
    obtain ⟨hl, rfl⟩ := htaken
    have hl' : Layout heap' (pre ++ ([{ b with used := true }] ++ post)) := hl
    refine ⟨heap', _, rfl, hi.take hu hl' ?_ ?_⟩
    · exact separated_around.mpr ⟨.nil, hpost, by simp, by simp⟩
    · exact ⟨_, [], rfl, rfl, rfl, by simp [Holds]⟩
  | false =>
    obtain ⟨hs, hroom⟩ := hclean.resolve_left (by simp [hw])
    have htaken := hi.layout.allocFromBlock_split hw hs ha hroom
    rcases hres : Mm.allocFromBlock heap b.addr b.footer size with ⟨heap', ret⟩
    rw [hres] at htaken
    obtain ⟨hl, rfl⟩ := htaken
    refine ⟨heap', _, rfl, hi.take hu hl ?_ ?_⟩
    · refine separated_around (p := [⟨b.addr, size, true⟩]).mpr ⟨?_, hpost, by simp, ?_⟩
      · exact List.isChain_singleton _
      · exact fun r hr => Or.inr (hnext' r hr)
    · exact ⟨_, [_], rfl, rfl, rfl, by simp [Holds]⟩

/-- A clean `kmalloc` keeps the invariant, and what it returns is not live. -/
theorem kmalloc (hi : HeapInv heap live bs)
    (hclean : size ≠ 0 → CleanSplit heap (alignRequest size)) :
    ((Mm.kmalloc heap size).2 = 0 ∧ ∃ bs, HeapInv (Mm.kmalloc heap size).1 live bs) ∨
      ((Mm.kmalloc heap size).2 ≠ 0 ∧
        ∃ bs, HeapInv (Mm.kmalloc heap size).1 ((Mm.kmalloc heap size).2 :: live) bs) := by
  have hgo : size ≠ 0 → Mm.kmalloc heap size =
      allocSearch heap (alignRequest size) ([] : List Block).length bs.length := by
    intro h0
    simp [Mm.kmalloc, alloc, h0, hi.layout.prechecks, hi.layout.header_length]
  by_cases h0 : size = 0
  · subst h0
    exact Or.inl ⟨rfl, bs, hi⟩
  rw [hgo h0]
  rcases @Layout.allocSearch_layout heap (alignRequest size) [] bs hi.layout (by simp) with
    ⟨hnone, -⟩ | ⟨l, b, r, heq, hno, hu, hfit, hres⟩
  · rw [hnone]
    exact Or.inl ⟨rfl, bs, hi⟩
  · rw [List.nil_append] at heq
    subst heq
    have hsize' : headerSize heap.mem b.addr = b.size := (hi.layout.tags b (by simp)).size
    have hc := hclean h0 _ (hi.layout.firstFit hu hfit hno)
    rw [hi.layout.get_header, hsize'] at hc
    obtain ⟨heap', bs, htaken, hinv⟩ := hi.allocFromBlock hu (alignRequest_aligned size) hc
    have hbound := hi.layout.bounds (b := b) (by simp)
    have hret : wadd b.addr sizeofHeader = b.payload :=
      wadd_of_lt (by simp only [sizeofHeader]; omega)
    rw [hres, htaken, hret]
    exact Or.inr ⟨by simp [Block.payload], bs, hinv⟩

theorem kfree (hi : HeapInv heap live bs) (hp : ptr ∈ live) :
    ∃ bs, HeapInv (Mm.kfree heap ptr) (live.erase ptr) bs := by
  obtain ⟨b, hb, hu, rfl⟩ := (hi.held ptr).mp hp
  obtain ⟨pre, post, rfl⟩ := List.append_of_mem hb
  obtain ⟨pre', b₁, b₂, post', hl, hleft, hright, -⟩ := hi.layout.free_layout
  obtain ⟨hpre, hpost, -, -⟩ := separated_around.mp hi.separated
  obtain ⟨hpre', hlast, hheldl⟩ := hleft.used_before hpre
  obtain ⟨hpost', hhead, hheldr⟩ := hright.used_after hpost
  refine ⟨_, hl, ?_, by simp, hi.distinct.erase _, fun p => ?_⟩
  · exact separated_around.mpr
      ⟨hpre', hpost', fun l h => Or.inl (hlast l h), fun r h => Or.inr (hhead r h)⟩
  · rw [hi.distinct.mem_erase_iff, hi.held p, holds_append, holds_append, holds_cons,
      holds_free rfl, hheldl p, hheldr p]
    constructor
    · rintro ⟨hne, h | ⟨-, he⟩ | h⟩
      · exact Or.inl h
      · exact absurd he.symm hne
      · exact Or.inr h
    · intro h
      refine ⟨?_, h.imp_right Or.inr⟩
      rintro rfl
      have hother : ∃ c, (c ∈ pre ∨ c ∈ post) ∧ c.payload = b.payload := by
        rcases h with h | h
        · obtain ⟨c, hc, -, hcp⟩ := (hheldl _).mpr h
          exact ⟨c, Or.inl hc, hcp⟩
        · obtain ⟨c, hc, -, hcp⟩ := (hheldr _).mpr h
          exact ⟨c, Or.inr hc, hcp⟩
      obtain ⟨c, hc, hcp⟩ := hother
      have hapart := hi.layout.tiles.apart hc
      simp only [Block.payload, Block.stop] at hcp hapart
      omega

/-- The state `kheap_init` leaves. -/
theorem init {mem : Mem} {framemap framemap' : FrameMap} (h0 : framemap.test 0 = true)
    (h : kheapInit mem framemap = some (heap, framemap')) :
    HeapInv heap [] [⟨heap.start, 4194272, false⟩] := by
  obtain ⟨base, halloc, rfl⟩ : ∃ base, allocPages framemap pmmFlagsDefault kheapPages =
      some (base, framemap') ∧ kheapInitAt mem (kp2v base) = heap := by
    simp only [kheapInit] at h
    split at h
    · simp at h
    · rename_i base fm halloc
      simp only [Option.some.injEq, Prod.mk.injEq] at h
      exact ⟨base, by rw [halloc, h.2], h.1⟩
  have hbase : base % 4096 = 0 ∧ base + 4194304 ≤ 939524096 := by
    have hlow := allocPages_lowmem h0 (by decide) halloc
    simp only [kheapPages, kernIdentityPhysEnd] at hlow
    rcases allocPages_cases h0 halloc with ⟨hz, -⟩ | ha
    · omega
    · have := ha.aligned
      have := ha.positive
      omega
  obtain ⟨start, hstart⟩ : ∃ start, start = base + 0xC0000000 := ⟨_, rfl⟩
  have hkp : kp2v base = start := by
    rw [hstart]
    exact wadd_of_lt (by omega)
  have hend : wadd start (1024 * pageSize) = start + 4194304 := by
    simp only [wadd, pageSize]
    omega
  have hfoot : wsub (start + 4194304) sizeofFooter = start + 4194288 := by
    simp only [wsub, sizeofFooter]
    omega
  have hsize : wsub (start + 4194304) (wadd (wadd start sizeofHeader) sizeofFooter) = 4194272 := by
    simp only [wsub, wadd, sizeofHeader, sizeofFooter]
    omega
  have hm32 : kheapMagic32 < 4294967296 := by decide
  have hm64 : kheapMagic64 < 18446744073709551616 := by decide
  have hins : ∀ v, ((OrderedArray.initPlace (fun _ => 0) 4096).insert v).1.entries = [v] := fun v =>
    Layout.insert_between (l := []) (r := []) rfl rfl (by decide) (by simp) (by simp)
  rw [hkp]
  refine ⟨?_, List.isChain_singleton _, by simp, List.nodup_nil, fun p => by simp [Holds]⟩
  simp only [kheapInitAt, hend, hfoot, hsize]
  constructor
  · rfl
  · exact hins _
  · rw [hins]; simp [Block.footer, Nat.add_assoc]
  · rfl
  · rfl
  · rfl
  · show 1 ≤ 4096
    decide
  · show 4096 < 4294967296
    decide
  · intro b hb
    obtain rfl := List.mem_singleton.mp hb
    have hnat : start + 16 + 4194272 = start + 4194288 := by omega
    constructor <;>
      simp (disch := omega) [headerSize, headerFooter, headerUsed, headerMagic, footerHeader,
        footerMagic, setFooterHeader, setFooterMagic, setFooterRes, setHeaderSize, setHeaderFooter,
        setHeaderUsed, setHeaderMagic, Block.footer, hnat, Mem.get32_set32_of_apart,
        Mem.get32_set64_of_apart, Mem.get64_set32_of_apart]
  · refine ⟨rfl, ?_, ?_⟩
    · show start < start + 32 + 4194272
      omega
    · show start + 32 + 4194272 = start + 4194304
      omega
  · intro b hb
    obtain rfl := List.mem_singleton.mp hb
    have halign : start % 16 = 0 := by omega
    exact ⟨halign, show 4194272 % 16 = 0 by decide⟩
  · show start + 4194304 ≤ 4294967296
    omega

/-! ## From blocks to indices -/

theorem index_split (hi : HeapInv heap live bs) {i : Nat} (h : i < heap.headerArray.size) :
    ∃ pre b post, bs = pre ++ b :: post ∧ pre.length = i := by
  rw [hi.layout.header_length] at h
  exact ⟨bs.take i, bs[i], bs.drop (i + 1), by simp, by simp; omega⟩

theorem index_split₂ (hi : HeapInv heap live bs) {i j : Nat} (hij : i < j)
    (h : j < heap.headerArray.size) : ∃ pre x mid y post, bs = pre ++ x :: (mid ++ y :: post) ∧
      pre.length = i ∧ pre.length + 1 + mid.length = j := by
  obtain ⟨l, y, post, rfl, rfl⟩ := hi.index_split h
  refine ⟨l.take i, l[i], l.drop (i + 1), y, post, ?_, by simp; omega, by simp; omega⟩
  rw [← List.cons_append, ← List.append_assoc]
  simp

theorem contract (hi : HeapInv heap live bs) : HeapContract heap live := by
  have hl := hi.layout
  -- what the arrays and the tags say at one index, and at two
  have at₁ : ∀ i < heap.headerArray.size, ∃ b ∈ bs, heap.headerArray.get i = b.addr ∧
      heap.footerArray.get i = b.footer ∧ Tags heap.mem b := by
    intro i h
    obtain ⟨pre, b, post, rfl, rfl⟩ := hi.index_split h
    exact ⟨b, by simp, hl.get_header, hl.get_footer, hl.tags b (by simp)⟩
  have at₂ : ∀ i j, i < j → j < heap.headerArray.size → ∃ x y : Block,
      heap.headerArray.get i = x.addr ∧ heap.footerArray.get i = x.footer ∧
      heap.headerArray.get j = y.addr ∧ heap.footerArray.get j = y.footer ∧ x.stop ≤ y.addr := by
    intro i j hij h
    obtain ⟨pre, x, mid, y, post, rfl, rfl, rfl⟩ := hi.index_split₂ hij h
    have hl' : Layout heap ((pre ++ x :: mid) ++ y :: post) := by simpa using hl
    have hlen : (pre ++ x :: mid).length = pre.length + 1 + mid.length := by simp; omega
    refine ⟨x, y, hl.get_header, hl.get_footer, ?_, ?_, hl'.order.1 x (by simp)⟩
    · rw [← hlen]; exact hl'.get_header
    · rw [← hlen]; exact hl'.get_footer
  have next : ∀ i, i + 1 < heap.headerArray.size → ∃ x ∈ bs, ∃ y ∈ bs,
      heap.headerArray.get i = x.addr ∧ heap.footerArray.get i = x.footer ∧
      heap.headerArray.get (i + 1) = y.addr ∧ y.addr = x.stop ∧ (x.used = true ∨ y.used = true) := by
    intro i h
    obtain ⟨pre, x, mid, y, post, rfl, rfl, hmid⟩ := hi.index_split₂ (Nat.lt_succ_self i) h
    obtain rfl : mid = [] := List.length_eq_zero_iff.mp (by omega)
    have hl' : Layout heap ((pre ++ [x]) ++ y :: post) := by simpa using hl
    have hsep := (separated_around.mp hi.separated).2.2.2
    refine ⟨x, by simp, y, by simp, hl.get_header, hl.get_footer, ?_, hl.tiles.adjacent, ?_⟩
    · simpa using hl'.get_header
    · exact hsep y (by simp)
  have held : ∀ p ∈ live, ∃ b ∈ bs, b.used = true ∧ p = b.addr + 16 ∧
      payloadSize heap p = b.size := by
    intro p hp
    obtain ⟨b, hb, hu, rfl⟩ := (hi.held p).mp hp
    exact ⟨b, hb, hu, rfl, (hl.tags b hb).size⟩
  obtain ⟨x, xs, rfl⟩ := List.exists_cons_of_ne_nil hi.inhabited
  have hpos : 0 < heap.headerArray.size := by rw [hl.header_length]; simp
  constructor
  · rw [hl.header_length, hl.footer_length]
  · exact hpos
  · exact (@Layout.get_header heap [] xs x hl).trans hl.tiles.start_head
  · intro i h
    obtain ⟨b, -, hh, hf, ht⟩ := at₁ i h
    have hsize : headerSize heap.mem b.addr = b.size := ht.size
    rw [hh, hf, hsize, Block.footer]
  · intro i h
    obtain ⟨x, -, y, -, -, hf, hh, hadj, -⟩ := next i h
    rw [hh, hf, hadj, Block.stop, Block.footer]
    omega
  · obtain ⟨pre, b, post, heq, hlen⟩ := hi.index_split (i := heap.headerArray.size - 1) (by omega)
    have hpost : post = [] := by
      have := congrArg List.length heq
      rw [← hl.header_length, List.length_append, List.length_cons] at this
      exact List.length_eq_zero_iff.mp (by omega)
    subst hpost
    rw [heq] at hl
    have hstop := hl.tiles.stop_last
    rw [← hlen, hl.get_footer]
    simp only [Block.stop, Block.footer] at hstop ⊢
    omega
  · intro i j hij h
    obtain ⟨x, y, hx, -, hy, -, hxy⟩ := at₂ i j hij h
    simp only [Block.stop] at hxy
    omega
  · intro i j hij h
    obtain ⟨x, y, -, hx, -, hy, hxy⟩ := at₂ i j hij h
    simp only [Block.stop, Block.footer] at hxy hx hy
    omega
  · intro i h
    obtain ⟨b, -, hh, hf, ht⟩ := at₁ i h
    rw [hh, hf]
    exact ht.toFooter
  · intro i h
    obtain ⟨b, -, hh, hf, ht⟩ := at₁ i h
    rw [hh, hf]
    exact ht.toHeader
  · intro i h
    obtain ⟨b, hb, hh, -, ht⟩ := at₁ i h
    have hsize : headerSize heap.mem b.addr = b.size := ht.size
    rw [hh, hsize]
    exact hl.aligned b hb
  · intro i h
    obtain ⟨x, hx, y, hy, hhx, -, hhy, -, hu⟩ := next i h
    rw [hhx, hhy, (hl.tags x hx).used, (hl.tags y hy).used]
    rcases hu with hu | hu
    · exact Or.inl (by simp [hu])
    · exact Or.inr (by simp [hu])
  · exact hi.distinct
  · intro p hp q hq hne
    obtain ⟨x, hx, -, rfl, hpx⟩ := held p hp
    obtain ⟨y, hy, -, rfl, hpy⟩ := held q hq
    obtain ⟨l, r, heq⟩ := List.append_of_mem hx
    have htiles := hl.tiles
    rw [heq] at htiles hy
    have hother : y ∈ l ∨ y ∈ r := by
      rcases List.mem_append.mp hy with hy | hy
      · exact Or.inl hy
      · rcases List.mem_cons.mp hy with rfl | hy
        · exact absurd rfl hne
        · exact Or.inr hy
    have hapart := htiles.apart hother
    simp only [Block.stop] at hapart
    omega
  · intro p hp
    obtain ⟨b, hb, -, rfl, hsize⟩ := held p hp
    have hbound := hl.bounds hb
    omega
  · intro p hp
    obtain ⟨b, hb, hu, rfl, -⟩ := held p hp
    obtain ⟨l, r, heq⟩ := List.append_of_mem hb
    rw [heq] at hl
    refine ⟨l.length, ?_, ?_, ?_⟩
    · rw [hl.header_length]; simp
    · rw [hl.get_header]
    · rw [hl.get_header, (hl.tags b (by simp)).used]
      simp [hu]

end HeapInv

/-! ## Runs -/

/-- A call made in a state that meets the condition. -/
def CleanStep (s : KmmState) (c : KmmCall) (s' : KmmState) : Prop := CleanCall s c ∧ KmmStep s c s'

theorem cleanStep_inv {s s' : KmmState} {c : KmmCall} (hi : ∃ bs, HeapInv s.heap s.live bs)
    (hs : CleanStep s c s') : ∃ bs, HeapInv s'.heap s'.live bs := by
  obtain ⟨bs, hi⟩ := hi
  obtain ⟨hclean, hlegal, rfl⟩ := hs
  cases c with
  | kmalloc size =>
    have hcase := hi.kmalloc hclean
    show ∃ bs, HeapInv (kmalloc s.heap size).1
      (if (kmalloc s.heap size).2 = 0 then s.live else (kmalloc s.heap size).2 :: s.live) bs
    split
    · rename_i hz
      exact (hcase.resolve_right fun h => h.1 hz).2
    · rename_i hne
      exact (hcase.resolve_left fun h => hne h.1).2
  | kfree ptr => exact hi.kfree hlegal

/-- The heap contract holds in every state of every run from `kheap_init` whose
allocations split cleanly. -/
theorem heap_contract {mem : Mem} {framemap framemap' : FrameMap} {heap : Heap}
    (h0 : framemap.test 0 = true) (hinit : kheapInit mem framemap = some (heap, framemap'))
    {calls : List KmmCall} {s : KmmState} (hrun : Run CleanStep ⟨heap, []⟩ calls s) :
    HeapContract s.heap s.live := by
  obtain ⟨bs, hi⟩ := hrun.invariant (I := fun s => ∃ bs, HeapInv s.heap s.live bs)
    (fun _ _ _ => cleanStep_inv) ⟨_, HeapInv.init h0 hinit⟩
  exact hi.contract

/-- The heap `kheap_init` sets up on a machine that uses exactly its first 4 MiB. -/
def bootHeap : Heap := kheapInitAt (fun _ => 0) 0xC0400000

theorem kheapInit_bootHeap :
    ∃ framemap', kheapInit (fun _ => 0) lowUsed = some (bootHeap, framemap') := by
  have hbase : (allocPages lowUsed pmmFlagsDefault kheapPages).map Prod.fst = some 0x400000 := by
    decide +kernel
  obtain ⟨⟨base, framemap'⟩, halloc, rfl⟩ := Option.map_eq_some_iff.mp hbase
  have hstart : kp2v 0x400000 = 0xC0400000 := rfl
  refine ⟨framemap', ?_⟩
  rw [kheapInit, halloc, bootHeap, ← hstart]

/-- Two blocks are taken, with an empty request between them, and the first is given back. -/
theorem heap_contract_two_blocks : ∃ s,
    Run CleanStep ⟨bootHeap, []⟩ [.kmalloc 200, .kmalloc 0, .kmalloc 40, .kfree 0xC0400010] s ∧
    s.live = [0xC0400100] ∧ HeapContract s.heap s.live := by
  obtain ⟨framemap', hinit⟩ := kheapInit_bootHeap
  obtain ⟨heap, hheap⟩ : ∃ heap, heap = (kmalloc bootHeap 200).1 := ⟨_, rfl⟩
  have hcall₁ : kmalloc bootHeap 200 = (heap, 0xC0400010) :=
    Prod.ext hheap.symm (show (kmalloc bootHeap 200).2 = 0xC0400010 by decide +kernel)
  have hcall₃ : kmalloc heap 40 = ((kmalloc heap 40).1, 0xC0400100) := by
    refine Prod.ext rfl ?_
    rw [hheap]
    decide +kernel
  have hfirst : CleanSplit bootHeap (alignRequest 200) := by
    intro i hi
    have hone : bootHeap.headerArray.size = 1 := rfl
    obtain rfl : i = 0 := by
      have := hi.1
      omega
    exact Or.inr (by decide +kernel)
  have hsecond : CleanSplit heap (alignRequest 40) := by
    intro i hi
    have htwo : heap.headerArray.size = 2 := by
      rw [hheap]
      decide +kernel
    have hused : headerUsed heap.mem (heap.headerArray.get 0) = 1 := by
      rw [hheap]
      decide +kernel
    obtain rfl : i = 1 := by
      have hlt := hi.1
      by_cases h0 : i = 0
      · have hfree := hi.2.1.1
        rw [h0, hused] at hfree
        cases hfree
      · omega
    refine Or.inr ?_
    rw [hheap]
    decide +kernel
  have hstep₁ : CleanStep ⟨bootHeap, []⟩ (.kmalloc 200) ⟨heap, [0xC0400010]⟩ :=
    ⟨fun _ => hfirst, by decide, by rw [KmmState.call, hcall₁]; rfl⟩
  have hstep₂ : CleanStep ⟨heap, [0xC0400010]⟩ (.kmalloc 0) ⟨heap, [0xC0400010]⟩ :=
    ⟨fun h => absurd rfl h, show 0 < 4294967296 by decide, rfl⟩
  have hstep₃ : CleanStep ⟨heap, [0xC0400010]⟩ (.kmalloc 40)
      ⟨(kmalloc heap 40).1, [0xC0400100, 0xC0400010]⟩ :=
    ⟨fun _ => hsecond, show 40 < 4294967296 by decide, by rw [KmmState.call, hcall₃]; rfl⟩
  have hstep₄ : CleanStep ⟨(kmalloc heap 40).1, [0xC0400100, 0xC0400010]⟩ (.kfree 0xC0400010)
      ⟨kfree (kmalloc heap 40).1 0xC0400010, [0xC0400100]⟩ :=
    ⟨trivial, List.mem_cons_of_mem _ List.mem_cons_self, rfl⟩
  have hrun := (((Run.single hstep₁).snoc hstep₂).snoc hstep₃).snoc hstep₄
  exact ⟨_, hrun, rfl, heap_contract (lowUsed_low 0 (by decide)) hinit hrun⟩

/-- A 16-byte block that was freed and is asked for again is cut where there is
nothing to cut: the remainder's tags land on the next block, which is live, and the
next request of 16 bytes is given the live block a second time. -/
theorem heap_contract_fails : ∃ framemap' s,
    kheapInit (fun _ => 0) lowUsed = some (bootHeap, framemap') ∧
    Run KmmStep ⟨bootHeap, []⟩
      [.kmalloc 16, .kmalloc 16, .kfree 0xC0400010, .kmalloc 16, .kmalloc 16] s ∧
    s.live = [0xC0400040, 0xC0400010, 0xC0400040] ∧ ¬ HeapContract s.heap s.live := by
  obtain ⟨framemap', hinit⟩ := kheapInit_bootHeap
  refine ⟨framemap', _, hinit, .cons ⟨by decide, rfl⟩ (.cons ⟨by decide, rfl⟩
    (.cons ⟨by decide +kernel, rfl⟩ (.cons ⟨by decide, rfl⟩ (.cons ⟨by decide, rfl⟩ (.nil _))))),
    by decide +kernel, fun h => ?_⟩
  exact absurd h.liveDistinct (by decide +kernel)

end BrownieOS.Mm
