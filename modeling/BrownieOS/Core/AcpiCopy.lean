import BrownieOS.Core.AcpiWindow
import BrownieOS.Mm.KmmFit

/-!
# Where the copies of the ACPI tables land

The size a finder asks `kmalloc` for and the length it copies are two numbers. The copy
stays inside its block as long as no more bytes can be read of the table than the block
that first fit hands out has.
-/
namespace BrownieOS.Core

open BrownieOS.Lib BrownieOS.Lib.Word32 BrownieOS.Mm

/-- The address lies in the payload of the block that `kmalloc` has handed out. -/
def InPayload (block : Heap × Nat) (a : Nat) : Prop :=
  block.2 ≠ 0 ∧ block.2 ≤ a ∧ a < block.2 + headerSize block.1.mem (block.2 - sizeofHeader)

/-- The finder copies `length` bytes from `ptr` on. -/
def Finder.Copies (f : Finder) (image : KernelImage) (s s' : Acpi) (ptr length : Nat) : Prop :=
  f.source image s = some (s', ptr) ∧ vget32 image s'.mem (wadd ptr 4) = some length

/-- All stores of the finder's copy go into the payload of its block. -/
def Finder.StaysInside (f : Finder) (image : KernelImage) (s : Acpi) : Prop :=
  ∀ s' ptr length, f.Copies image s s' ptr length →
    ∀ store ∈ memcpyStores image s'.mem (kmalloc s'.heap (f.size length)).2 ptr 0 length,
      InPayload (kmalloc s'.heap (f.size length)) store.1

/-- How many of `n` bytes can be read one after the other. -/
def readableBytes (image : KernelImage) (m : Mem) (src : Nat) : Nat → Nat → Nat
  | _, 0 => 0
  | i, n + 1 => if (vbyte image m (wadd src i)).isSome then readableBytes image m src (i + 1) n + 1 else 0

/-- The payload a block gives to a rounded request. -/
def payloadGiven (b : Block) (size : Nat) : Nat := if takesWhole b.size size then b.size else size

/-- First fit has a block for the request, with at least `n` bytes of payload. -/
def RoomFor (bs : List Block) (request n : Nat) : Prop :=
  request ≠ 0 ∧ ∃ b, LowestFit bs (alignRequest request) b ∧ n ≤ payloadGiven b (alignRequest request)

section Stores

variable {image : KernelImage} {m : Mem} {dest src i k n : Nat} {store : Nat × Byte}

theorem readableBytes_all (h : ∀ k < n, (vbyte image m (wadd src (i + k))).isSome) :
    readableBytes image m src i n = n := by
  induction n generalizing i with
  | zero => rfl
  | succ n ih =>
    have hfirst : (vbyte image m (wadd src i)).isSome := h 0 (by omega)
    rw [readableBytes, if_pos hfirst, ih fun k hk => ?_]
    have := h (k + 1) (by omega)
    rwa [show i + 1 + k = i + (k + 1) by omega]

/-- Every store of the copy is of a byte that could be read. -/
theorem mem_memcpyStores (h : store ∈ memcpyStores image m dest src i n) :
    ∃ k < readableBytes image m src i n, store.1 = wadd dest (i + k) := by
  induction n generalizing i with
  | zero => cases h
  | succ n ih =>
    rw [memcpyStores] at h
    rw [readableBytes]
    cases hb : vbyte image m (wadd src i) with
    | none =>
      rw [hb] at h
      cases h
    | some c =>
      rw [hb] at h
      rw [Option.isSome_some, if_pos rfl]
      rcases List.mem_cons.1 h with rfl | h
      · exact ⟨0, by omega, rfl⟩
      · obtain ⟨k, hk, he⟩ := ih h
        exact ⟨k + 1, by omega, by rw [he, Nat.add_assoc, Nat.add_comm 1 k]⟩

/-- Every byte that can be read is stored. -/
theorem memcpyStores_at (hk : k < readableBytes image m src i n) :
    ∃ c, (wadd dest (i + k), c) ∈ memcpyStores image m dest src i n := by
  induction n generalizing i k with
  | zero => exact absurd hk (Nat.not_lt_zero k)
  | succ n ih =>
    rw [readableBytes] at hk
    rw [memcpyStores]
    cases hb : vbyte image m (wadd src i) with
    | none =>
      rw [hb, if_neg (by decide)] at hk
      exact absurd hk (Nat.not_lt_zero k)
    | some c =>
      rw [hb, Option.isSome_some, if_pos rfl] at hk
      by_cases h0 : k = 0
      · subst h0
        exact ⟨c, List.mem_cons_self ..⟩
      · obtain ⟨c', hc'⟩ := @ih (i + 1) (k - 1) (by omega)
        refine ⟨c', List.mem_cons_of_mem _ ?_⟩
        rwa [show i + 1 + (k - 1) = i + k by omega] at hc'

theorem applyStores_off {a : Nat} {stores : List (Nat × Byte)} (h : ∀ store ∈ stores, store.1 ≠ a)
    (m : Mem) : applyStores m stores a = m a := by
  induction stores generalizing m with
  | nil => rfl
  | cons store stores ih =>
    have hfirst := h store List.mem_cons_self
    have hrest := ih (fun store' hs => h store' (List.mem_cons_of_mem store hs))
      (Function.update m store.1 store.2)
    exact hrest.trans (Function.update_of_ne hfirst.symm _ _)

theorem vget32_lt {va v : Nat} (h : vget32 image m va = some v) : v < 4294967296 := by
  simp only [vget32, Option.bind_eq_bind, Option.bind_eq_some_iff, Option.pure_def,
    Option.some.injEq] at h
  obtain ⟨b₀, -, b₁, -, b₂, -, b₃, -, rfl⟩ := h
  have h₀ := b₀.isLt
  have h₁ := b₁.isLt
  have h₂ := b₂.isLt
  have h₃ := b₃.isLt
  omega

end Stores

/-- A copy that stays inside writes no heap byte outside the payload of its block. -/
theorem Finder.StaysInside.keeps {f : Finder} {image : KernelImage} {s s' : Acpi}
    {ptr length a : Nat} (h : f.StaysInside image s) (hc : f.Copies image s s' ptr length)
    (ha : ¬ InPayload (kmalloc s'.heap (f.size length)) a) (m : Mem) :
    applyStores m (memcpyStores image s'.mem (kmalloc s'.heap (f.size length)).2 ptr 0 length) a =
      m a := by
  refine applyStores_off (fun store hs he => ha ?_) m
  rw [← he]
  exact h s' ptr length hc store hs

section Block

variable {heap : Heap} {bs : List Block} {request n : Nat}

theorem alignRequest_lt (h : request < 4294967296) : alignRequest request < 4294967296 := by
  unfold alignRequest
  split
  · exact wadd_lt _ _
  · exact h

/-- A copy of `n` bytes to the block `kmalloc` gives stays inside exactly when there is
nothing to copy or room for all of it. -/
theorem copy_inside_iff (h : Layout heap bs) (hr : request < 4294967296) :
    (∀ k < n, InPayload (kmalloc heap request) (wadd (kmalloc heap request).2 k)) ↔
      n = 0 ∨ RoomFor bs request n := by
  by_cases h0 : n = 0
  · subst h0
    exact ⟨fun _ => Or.inl rfl, fun _ k hk => absurd hk (Nat.not_lt_zero k)⟩
  by_cases hreq : request = 0
  · subst hreq
    constructor
    · exact fun hall => absurd rfl (hall 0 (by omega)).1
    · rintro (he | ⟨hne, -⟩)
      · exact absurd he h0
      · exact absurd rfl hne
  have hres := alloc_outcome h hreq
  unfold kmalloc
  generalize alloc heap request = block at hres
  cases hres with
  | none hno =>
    constructor
    · exact fun hall => absurd rfl (hall 0 (by omega)).1
    · rintro (he | ⟨-, b, hb, -⟩)
      · exact absurd he h0
      · exact absurd hb.fits (Nat.not_le.2 (hno b hb.listed hb.free))
  | @block b heap' hb htaken =>
    have hbound := h.bounds hb.listed
    have hpay : headerSize heap'.mem (b.addr + 16 - sizeofHeader) =
        payloadGiven b (alignRequest request) := by
      rw [show b.addr + 16 - sizeofHeader = b.addr from Nat.add_sub_cancel b.addr 16]
      exact (allocFromBlock_header htaken (h.tags b hb.listed) (alignRequest_lt hr)).2
    have hle : payloadGiven b (alignRequest request) ≤ b.size := by
      have := hb.fits
      unfold payloadGiven
      split
      · exact Nat.le_refl _
      · exact this
    unfold InPayload
    dsimp only
    rw [hpay]
    constructor
    · intro hall
      refine Or.inr ⟨hreq, b, hb, ?_⟩
      by_contra hlong
      -- The first byte too many is the footer's.
      have hover := (hall (payloadGiven b (alignRequest request)) (by omega)).2.2
      rw [wadd_of_lt (by omega)] at hover
      exact absurd hover (Nat.lt_irrefl _)
    · rintro (he | ⟨-, c, hc, hroom⟩) k hk
      · exact absurd he h0
      · obtain rfl := LowestFit.unique h hb hc
        rw [wadd_of_lt (by omega)]
        omega

/-- Writes inside the payload of a block leave every tag. -/
theorem Layout.write_payload {m' : Mem} {pre post : List Block} {b : Block} {lo hi : Nat}
    (h : Layout heap (pre ++ b :: post)) (hm : Mem.AgreeOff heap.mem m' lo hi)
    (hlo : b.addr + 16 ≤ lo) (hhi : hi ≤ b.footer) :
    Layout { heap with mem := m' } (pre ++ b :: post) := by
  obtain ⟨hpre, hlt, hpost⟩ := h.tiles.around
  have hroom := h.capacity
  rw [h.header_length] at hroom
  have hb := h.tags b (by simp)
  simp only [Block.footer] at hhi
  refine h.rebuild [b] [b] ⟨rfl, rfl, rfl, rfl, rfl, rfl, rfl⟩ hpre ⟨rfl, hlt, rfl⟩ hpost
    h.headers h.footers hroom (hm.mono (by omega) (by simp only [Block.stop]; omega)) ?_ ?_
  · intro c hc
    obtain rfl := List.mem_singleton.1 hc
    constructor
    · exact (hm.get32 (by omega)).trans hb.size
    · exact (hm.get32 (by omega)).trans hb.toFooter
    · exact (hm.get32 (by omega)).trans hb.used
    · exact (hm.get32 (by omega)).trans hb.magic32
    · exact (hm.get32 (by simp only [Block.footer]; omega)).trans hb.toHeader
    · exact (hm.get64 (by simp only [Block.footer]; omega)).trans hb.magic64
  · intro c hc
    obtain rfl := List.mem_singleton.1 hc
    exact h.aligned c (by simp)

end Block

section Finders

variable {image : KernelImage} {m : Mem} {s : Acpi} {bs : List Block} {heap : Heap}
  {ptr length request : Nat}

theorem stores_inside_iff (h : Layout heap bs) (hr : request < 4294967296) :
    (∀ store ∈ memcpyStores image m (kmalloc heap request).2 ptr 0 length,
      InPayload (kmalloc heap request) store.1) ↔ readableBytes image m ptr 0 length = 0 ∨
        RoomFor bs request (readableBytes image m ptr 0 length) := by
  rw [← copy_inside_iff h hr]
  constructor
  · intro hall k hk
    obtain ⟨c, hc⟩ : ∃ c, (wadd (kmalloc heap request).2 (0 + k), c) ∈
        memcpyStores image m (kmalloc heap request).2 ptr 0 length := memcpyStores_at hk
    rw [Nat.zero_add] at hc
    exact hall _ hc
  · intro hall store hs
    obtain ⟨k, hk, he⟩ := mem_memcpyStores hs
    rw [he, Nat.zero_add]
    exact hall k hk

theorem Finder.size_lt (f : Finder) (h : length < 4294967296) : f.size length < 4294967296 := by
  cases f with
  | fadt => exact (by decide : sizeofFadt < 4294967296)
  | rsdtXsdt => exact h
  | madt => exact h
  | hpet => exact h

/-- Every finder's copy stays inside the block `kmalloc` gave for it exactly when nothing can
be read of the table, or when first fit has a block for the size asked for that is as long
as what can be read of the table. -/
theorem acpi_copy_inside_iff (h : Layout s.heap bs) (f : Finder) (image : KernelImage) :
    f.StaysInside image s ↔ ∀ s' ptr length, f.Copies image s s' ptr length →
      readableBytes image s'.mem ptr 0 length = 0 ∨
        RoomFor bs (f.size length) (readableBytes image s'.mem ptr 0 length) := by
  unfold Finder.StaysInside
  refine forall_congr' fun s' => forall_congr' fun ptr => forall_congr' fun length =>
    forall_congr' fun hc => ?_
  rw [Finder.source_heap hc.1]
  exact stores_inside_iff h (f.size_lt (vget32_lt hc.2))

end Finders

/-! ## A FADT of a given length -/

/-- The boot heap with one block of 48 bytes, a copied RSDT with one table. -/
def rsdtHeap : Heap :=
  let heap := (kmalloc bootHeap 40).1
  { heap with mem := (heap.mem.set32 0xC0400014 40).set32 0xC0400034 0xE0000000 }

def rsdtBlocks : List Block := [⟨0xC0400000, 48, true⟩, ⟨0xC0400050, 4194192, false⟩]

/-- A FADT of `length` bytes at the start of a page of highmem. -/
def fadtBytes (length : Nat) : List Byte :=
  "FACP".toList.map LibC.ch ++ [BitVec.ofNat 8 length, BitVec.ofNat 8 (length / 256), 0, 0]

def fadtMem (length : Nat) : Mem :=
  (setupKernelDirectory sampleImage fun _ => 0).writeAt 0xE0000000 (fadtBytes length)

def fadtAcpi (length : Nat) : Acpi where
  mem := fadtMem length
  heap := rsdtHeap
  rsdt := 0xC0400010

section Fadt

variable {length k : Nat}

theorem kmalloc_bootHeap_layout : Layout (kmalloc bootHeap 40).1 rsdtBlocks := by
  have hcut := (@Layout.allocFromBlock_split _ [] [] _ 48 bootHeap_layout
    (by decide) (by decide) (by decide) (by decide)).1
  have hres := alloc_outcome bootHeap_layout (show 40 ≠ 0 by decide)
  unfold kmalloc
  generalize alloc bootHeap 40 = block at hres
  cases hres with
  | none hno => exact absurd (hno _ (List.mem_singleton.2 rfl) rfl) (by decide)
  | @block b heap' hb htaken =>
    obtain rfl := List.mem_singleton.1 hb.listed
    rw [show alignRequest 40 = 48 by decide] at htaken
    rwa [htaken] at hcut

theorem rsdtHeap_layout : Layout rsdtHeap rsdtBlocks :=
  @Layout.write_payload _ _ [] _ _ _ _ kmalloc_bootHeap_layout
    (((Mem.AgreeOff.refl _ 0xC0400010 0xC0400040).set32 _ (by decide) (by decide)).set32 _
      (by decide) (by decide)) (by decide) (by decide)

theorem fadtMem_agree (length : Nat) : Mem.AgreeOff (setupKernelDirectory sampleImage fun _ => 0)
    (fadtMem length) 0xE0000000 0xE0000008 :=
  (Mem.AgreeOff.refl _ _ _).writeAt (Nat.le_refl _) (Nat.le_refl _)

theorem fadtMem_holds (length : Nat) :
    (fadtMem length).HoldsAt 0xE0000000 (fadtBytes length) := Mem.holdsAt_writeAt _ _ _

theorem fadtMem_boot (length : Nat) : BootDirectory (fadtMem length) sampleImage :=
  (bootDirectory_setup sampleImage get32_zero).of_agree (fadtMem_agree length) (by decide)

theorem fadtMem_slot (length : Nat) :
    findFreeSlot (fadtMem length) sampleImage.dir kernHighmemStartTbl 32 = some (992, 0) :=
  ((freshDirectory_setup sampleImage get32_zero).of_agree (fadtMem_agree length) (by decide)).findFreeSlot

theorem fadtMem_reads (length : Nat) :
    ReadsWholeTable sampleImage (fadtMem length) 0xE0000000 4096 :=
  reads_of_nextPagesMap (fadtMem_boot length) (by decide) (fadtMem_slot length) (by decide)
    fun t ht hlen => by omega

theorem fadtMem_kmap (length : Nat) :
    (kmap sampleImage.dir (fadtMem length) 0xE0000000).2 = 0xF8000000 := by
  have hptr : pageIdxVaddr 992 0 (0xE0000000 % 4096) = 0xF8000000 := by decide
  rw [kmap_slot (fadtMem_boot length).directory (fadtMem_slot length) (by decide), hptr]

theorem fadtMem_vbyte (length : Nat) (hk : k < 4096) :
    vbyte sampleImage (kmap sampleImage.dir (fadtMem length) 0xE0000000).1
      (wadd 0xF8000000 k) = some (fadtMem length (0xE0000000 + k)) := by
  have hread := (fadtMem_reads length).vbyte (fadtMem_boot length) (by decide) hk
  rwa [fadtMem_kmap] at hread

theorem fadtMem_sig (length : Nat) (hk : k < 4) : fadtMem length (0xE0000000 + k) = fadtSig k :=
  (Mem.holdsAt_append.1 (fadtMem_holds length)).1.apply hk

/-- A list of one table that has the signature. -/
theorem findTable_single {image : KernelImage} {sig : Nat → Byte} {s : Acpi} {m' : Mem} {p v : Nat}
    (hv : s.acpiVersion < 2) (hn : wsub (sdtLength s.heap.mem s.rsdt) sizeofSdtHeader / 4 = 1)
    (hp : rsdtEntry s 0 = p) (hk : kmap image.dir s.mem p = (m', v))
    (hsig : vstrncmp image m' v sig 0 4 = some 0) :
    findTable image sig s = some ({ s with mem := m' }, v) := by
  rw [findTable, if_pos hv]
  dsimp only
  rw [hn, findTableLoop, hp, hk]
  dsimp only
  rw [hsig]
  rfl

/-- The search ends at the table, which can be read to the end of its page. -/
theorem fadtAcpi_source (length : Nat) : ∃ m',
    Finder.fadt.source sampleImage (fadtAcpi length) =
      some ({ fadtAcpi length with mem := m', fadtPtr := 0xF8000000 }, 0xF8000000) ∧
    ∀ k < 4096, vbyte sampleImage m' (wadd 0xF8000000 k) =
      some (fadtMem length (0xE0000000 + k)) := by
  have hentries : wsub (sdtLength rsdtHeap.mem 0xC0400010) sizeofSdtHeader / 4 = 1 := by
    decide +kernel
  have hentry : rsdtHeap.mem.get32 0xC0400034 = 0xE0000000 := by decide +kernel
  have hptr := fadtMem_kmap length
  cases hm' : kmap sampleImage.dir (fadtMem length) 0xE0000000 with
  | mk m' v =>
  rw [hm'] at hptr
  dsimp only at hptr
  subst hptr
  have hbytes : ∀ k < 4096, vbyte sampleImage m' (wadd 0xF8000000 k) =
      some (fadtMem length (0xE0000000 + k)) := by
    intro k hk
    have := fadtMem_vbyte length hk
    rwa [hm'] at this
  have hsig : vstrncmp sampleImage m' 0xF8000000 fadtSig 0 4 = some 0 := by
    rw [vstrncmp_of_vbyte fun k _ hk => hbytes k (by omega)]
    exact congrArg some (LibC.strncmpLoop_eq_zero_iff.2 fun k _ hk => fadtMem_sig length (by omega))
  have hfind := findTable_single (s := fadtAcpi length) Nat.zero_lt_two hentries hentry hm' hsig
  refine ⟨m', ?_, hbytes⟩
  rw [Finder.source, hfind]
  rfl

/-- The finder turns to the table, and reads all of it and its length. -/
theorem fadtAcpi_copies (hlen : (Mem.ofBytes (fadtBytes length)).get32 4 = length)
    (hpage : length ≤ 4096) : ∃ s',
      Finder.fadt.source sampleImage (fadtAcpi length) = some (s', 0xF8000000) ∧
        vget32 sampleImage s'.mem (wadd 0xF8000000 4) = some length ∧
          readableBytes sampleImage s'.mem 0xF8000000 0 length = length := by
  obtain ⟨m', hsource, hbytes⟩ := fadtAcpi_source length
  refine ⟨_, hsource, ?_, readableBytes_all fun k hk => ?_⟩
  · rw [vget32_of_vbyte hbytes (by decide), (fadtMem_holds length).get32 (k := 4) (Nat.le_refl 8), hlen]
  · dsimp only
    rw [hbytes (0 + k) (by omega)]
    rfl

theorem fadt_lowestFit : LowestFit rsdtBlocks (alignRequest sizeofFadt) ⟨0xC0400050, 4194192, false⟩ where
  listed := by decide
  free := rfl
  fits := by decide
  lowest := by decide

end Fadt

/-- A FADT of 116 bytes is copied into the 256 bytes its finder gets. -/
theorem fadt_copy_inside_116 : Finder.fadt.StaysInside sampleImage (fadtAcpi 116) := by
  obtain ⟨s, hsource, hlen, hall⟩ := @fadtAcpi_copies 116 (by decide) (by decide)
  refine (acpi_copy_inside_iff rsdtHeap_layout .fadt sampleImage).2 fun s' ptr length hc => ?_
  obtain ⟨rfl, rfl⟩ := Prod.mk.inj (Option.some.inj (hsource.symm.trans hc.1))
  obtain rfl := Option.some.inj (hlen.symm.trans hc.2)
  rw [hall]
  exact Or.inr ⟨by decide, _, fadt_lowestFit, by decide⟩

/-- A FADT of 276 bytes runs over the end of them. -/
theorem fadt_copy_overruns_276 : ¬ Finder.fadt.StaysInside sampleImage (fadtAcpi 276) := by
  obtain ⟨s, hsource, hlen, hall⟩ := @fadtAcpi_copies 276 (by decide) (by decide)
  intro hinside
  have hstores := hinside s 0xF8000000 276 ⟨hsource, hlen⟩
  rw [Finder.source_heap hsource] at hstores
  have hrequest : sizeofFadt < 4294967296 := by decide
  have hroom := (stores_inside_iff rsdtHeap_layout hrequest).1 hstores
  rw [hall] at hroom
  rcases hroom with h0 | ⟨-, b, hb, hfits⟩
  · cases h0
  · obtain rfl := hb.unique rsdtHeap_layout fadt_lowestFit
    exact absurd hfits (by decide)

end BrownieOS.Core
