import BrownieOS.Mm.KmmGrow

/-!
# What `alloc` finds

The search stops at the free block of lowest address that holds the rounded request, or
fails with nothing changed. The header of the block found is the last thing written, so it
is right even where the split is not: `alloc` gives less than was asked for only when
rounding wraps. With full arrays every split loses the remainder.
-/
namespace BrownieOS.Mm

open BrownieOS.Lib BrownieOS.Lib.Word32 BrownieOS.Core

/-- The size rounded up to a multiple of 16. -/
def roundUp16 (size : Nat) : Nat := (size + 15) / 16 * 16

/-- The free block of lowest address with room for `size` bytes. -/
structure LowestFit (bs : List Block) (size : Nat) (b : Block) : Prop where
  listed : b ∈ bs
  free : b.used = false
  fits : size ≤ b.size
  lowest : ∀ c ∈ bs, c.used = false → size ≤ c.size → b.addr ≤ c.addr

/-- How the search of `alloc` for a rounded request ends. -/
inductive AllocOutcome (heap : Heap) (bs : List Block) (size : Nat) : Heap × Nat → Prop
  | none : (∀ b ∈ bs, b.used = false → b.size < size) → AllocOutcome heap bs size (heap, 0)
  | block {b : Block} {heap' : Heap} : LowestFit bs size b →
      allocFromBlock heap b.addr b.footer size = (heap', b.addr) →
      AllocOutcome heap bs size (heap', b.addr + 16)

variable {heap heap' : Heap} {bs pre post : List Block} {b c : Block} {size : Nat}

theorem LowestFit.unique (h : Layout heap bs) (hb : LowestFit bs size b)
    (hc : LowestFit bs size c) : b = c := by
  have h₁ := hb.lowest c hc.listed hc.free hc.fits
  have h₂ := hc.lowest b hb.listed hb.free hb.fits
  exact h.tiles.eq_of_start_eq hb.listed hc.listed (Nat.le_antisymm h₁ h₂)

/-- The first fit of the list is the fit of lowest address. -/
theorem Layout.lowestFit (h : Layout heap (pre ++ b :: post)) (hu : b.used = false)
    (hfit : size ≤ b.size) (hpre : ∀ c ∈ pre, ¬ (c.used = false ∧ size ≤ c.size)) :
    LowestFit (pre ++ b :: post) size b where
  listed := by simp
  free := hu
  fits := hfit
  lowest := by
    intro c hc hcu hcfit
    rcases List.mem_append.mp hc with hc | hc
    · exact absurd ⟨hcu, hcfit⟩ (hpre c hc)
    · rcases List.mem_cons.mp hc with rfl | hc
      · exact Nat.le_refl _
      · have hafter := h.order.2 c hc
        simp only [Block.stop] at hafter
        omega

theorem allocFromBlock_ret (heap : Heap) (header footer size : Nat) :
    ∃ heap', allocFromBlock heap header footer size = (heap', header) := by
  unfold allocFromBlock
  split
  · exact ⟨_, rfl⟩
  · exact ⟨_, rfl⟩

/-- `alloc` for a request that is not empty. -/
theorem alloc_outcome (h : Layout heap bs) (h0 : size ≠ 0) :
    AllocOutcome heap bs (alignRequest size) (alloc heap size) := by
  have hgo : alloc heap size =
      allocSearch heap (alignRequest size) ([] : List Block).length bs.length := by
    simp [alloc, h0, h.prechecks, h.header_length]
  rw [hgo]
  have hsearch := @Layout.allocSearch_layout heap (alignRequest size) [] bs h (by simp)
  rcases hsearch with ⟨hnone, hno⟩ | ⟨l, b, r, heq, hno, hu, hfit, hres⟩
  · rw [hnone]
    refine .none fun b hb hu => ?_
    have hb' := hno b hb
    simp only [hu, true_and] at hb'
    omega
  · rw [List.nil_append] at heq
    subst heq
    have hbound := h.bounds (b := b) (by simp)
    have hret : wadd b.addr sizeofHeader = b.addr + 16 :=
      wadd_of_lt (by simp only [sizeofHeader]; omega)
    obtain ⟨heap', htaken⟩ := allocFromBlock_ret heap b.addr b.footer (alignRequest size)
    rw [hres, htaken, hret]
    exact .block (h.lowestFit hu hfit hno) htaken

/-- The tag of the block handed out, whichever branch `alloc_from_block` takes. -/
theorem allocFromBlock_header (h : allocFromBlock heap b.addr b.footer size = (heap', b.addr))
    (ht : Tags heap.mem b) (hsize : size < 4294967296) :
    headerUsed heap'.mem b.addr = 1 ∧
      headerSize heap'.mem b.addr = if takesWhole b.size size then b.size else size := by
  have hold : headerSize heap.mem b.addr = b.size := ht.size
  unfold allocFromBlock at h
  rw [hold] at h
  split at h
  · rename_i hwhole
    obtain rfl := (Prod.mk.inj h).1
    rw [if_pos hwhole]
    refine ⟨Mem.get32_set32_self _ _ (by decide), ?_⟩
    exact (Mem.get32_set32_of_apart _ _ (by omega)).trans hold
  · rename_i hwhole
    obtain rfl := (Prod.mk.inj h).1
    rw [if_neg hwhole]
    refine ⟨Mem.get32_set32_self _ _ (by decide), ?_⟩
    -- only the footer pointer and the mark are written after the size
    refine (Mem.get32_set32_of_apart _ _ (by omega)).trans ?_
    refine (Mem.get32_set32_of_apart _ _ (by omega)).trans ?_
    exact Mem.get32_set32_self _ _ hsize

theorem allocFromBlock_size (h : allocFromBlock heap b.addr b.footer size = (heap', b.addr))
    (ht : Tags heap.mem b) (hfit : size ≤ b.size) (hsize : size < 4294967296) :
    size ≤ headerSize heap'.mem b.addr := by
  rw [(allocFromBlock_header h ht hsize).2]
  split
  · exact hfit
  · exact Nat.le_refl _

/-! ## First fit -/

theorem alignRequest_eq (h : size ≤ 0xFFFFFFF0) : alignRequest size = roundUp16 size := by
  unfold alignRequest roundUp16
  split
  · simp only [wadd]
    omega
  · omega

theorem alignRequest_wraps (h : 0xFFFFFFF0 < size) (h' : size < 4294967296) :
    alignRequest size = 0 := by
  unfold alignRequest
  split
  · simp only [wadd]
    omega
  · omega

/-- First fit: NULL and nothing changed when no free block holds the rounded request, else
the payload of the lowest that does, whose header then says used and large enough. -/
theorem alloc_first_fit (h : Layout heap bs) (hs : 1 ≤ size) (hs' : size ≤ 0xFFFFFFF0) :
    ((alloc heap size).2 = 0 ↔ ∀ b ∈ bs, b.used = false → b.size < roundUp16 size) ∧
      ((alloc heap size).2 = 0 → (alloc heap size).1 = heap) ∧
      ((alloc heap size).2 ≠ 0 → ∃ b, LowestFit bs (roundUp16 size) b ∧
        (alloc heap size).2 = b.addr + 16 ∧ headerUsed (alloc heap size).1.mem b.addr = 1 ∧
        roundUp16 size ≤ headerSize (alloc heap size).1.mem b.addr) := by
  have hres := alloc_outcome h (show size ≠ 0 by omega)
  rw [alignRequest_eq hs'] at hres
  generalize alloc heap size = result at hres
  cases hres with
  | none hno => exact ⟨iff_of_true rfl hno, fun _ => rfl, fun hne => absurd rfl hne⟩
  | @block b heap' hb htaken =>
    have ht := h.tags b hb.listed
    have hlt : roundUp16 size < 4294967296 := by
      simp only [roundUp16]
      omega
    obtain ⟨hused, -⟩ := allocFromBlock_header htaken ht hlt
    have hgot := allocFromBlock_size htaken ht hb.fits hlt
    refine ⟨iff_of_false (Nat.succ_ne_zero _) fun hno => ?_, fun hz => absurd hz (Nat.succ_ne_zero _),
      fun _ => ⟨b, hb, rfl, hused, hgot⟩⟩
    have hsmall := hno b hb.listed hb.free
    have hfits := hb.fits
    omega

/-- The heap as `kheap_init` leaves it: one free block. -/
theorem bootHeap_layout : Layout bootHeap [⟨0xC0400000, 4194272, false⟩] := by
  obtain ⟨framemap', hinit⟩ := kheapInit_bootHeap
  exact (HeapInv.init (lowUsed_low 0 (by decide)) hinit).layout

theorem alloc_first_fit_boot :
    ∃ b, LowestFit [⟨0xC0400000, 4194272, false⟩] (roundUp16 40) b ∧
      (alloc bootHeap 40).2 = b.addr + 16 ∧ headerUsed (alloc bootHeap 40).1.mem b.addr = 1 ∧
      roundUp16 40 ≤ headerSize (alloc bootHeap 40).1.mem b.addr :=
  (alloc_first_fit bootHeap_layout (by decide) (by decide)).2.2 (by decide +kernel)

/-! ## What the caller gets -/

/-- A pointer from `alloc` is aligned, and the header before it promises the size asked for. -/
def DeliversRequest (heap : Heap) (size : Nat) : Prop :=
  (alloc heap size).2 ≠ 0 → (alloc heap size).2 % 16 = 0 ∧
    size ≤ headerSize (alloc heap size).1.mem ((alloc heap size).2 - 16)

/-- A wrapped request is for no bytes: the first free block is handed out for it. -/
theorem not_deliversRequest (h : Layout heap bs) (hwrap : 0xFFFFFFF0 < size)
    (hs : size < 4294967296) (hb : b ∈ bs) (hu : b.used = false) : ¬ DeliversRequest heap size := by
  have hres := alloc_outcome h (show size ≠ 0 by omega)
  rw [alignRequest_wraps hwrap hs] at hres
  intro hgives
  unfold DeliversRequest at hgives
  generalize alloc heap size = result at hres hgives
  cases hres with
  | none hno => exact absurd (hno b hb hu) (Nat.not_lt_zero _)
  | @block c heap' hc htaken =>
    have hbound := h.bounds hc.listed
    have hsize := (hgives (Nat.succ_ne_zero _)).2
    have hzero : (0 : Nat) < 4294967296 := by decide
    obtain ⟨-, hhead⟩ := allocFromBlock_header htaken (h.tags c hc.listed) hzero
    rw [Nat.add_sub_cancel, hhead] at hsize
    split at hsize
    · omega
    · omega

/-- `alloc` delivers what was asked for exactly when rounding the request does not wrap, or
when there is no free block to give. -/
theorem delivers_request_iff (h : Layout heap bs) (hs : size < 4294967296) :
    DeliversRequest heap size ↔ size ≤ 0xFFFFFFF0 ∨ ∀ b ∈ bs, b.used = true := by
  constructor
  · intro hgives
    by_contra hno
    obtain ⟨hwrap, hfree⟩ := not_or.mp hno
    refine hfree fun b hb => ?_
    cases hu : b.used with
    | true => rfl
    | false => exact absurd hgives (not_deliversRequest h (by omega) hs hb hu)
  · intro hcond hne
    have h0 : size ≠ 0 := by
      intro hz
      subst hz
      exact hne rfl
    have hres := alloc_outcome h h0
    generalize alloc heap size = result at hres hne
    cases hres with
    | none hno => exact absurd rfl hne
    | @block b heap' hb htaken =>
      have ht := h.tags b hb.listed
      have haligned := h.aligned b hb.listed
      have hle : size ≤ 0xFFFFFFF0 := by
        rcases hcond with hle | hused
        · exact hle
        · have hbu := hused b hb.listed
          rw [hb.free] at hbu
          cases hbu
      rw [alignRequest_eq hle] at hb htaken
      have hlt : roundUp16 size < 4294967296 := by
        simp only [roundUp16]
        omega
      have hgot := allocFromBlock_size htaken ht hb.fits hlt
      have hround : size ≤ roundUp16 size := by
        simp only [roundUp16]
        omega
      dsimp only
      rw [Nat.add_sub_cancel]
      exact ⟨by omega, Nat.le_trans hround hgot⟩

theorem delivers_request_boot : DeliversRequest bootHeap 40 :=
  (delivers_request_iff bootHeap_layout (by decide)).mpr (Or.inl (by decide))

/-- A request for `0xFFFFFFF1` bytes is given a block of none. -/
theorem alloc_underdelivers :
    (alloc bootHeap 0xFFFFFFF1).2 = 0xC0400010 ∧
      headerSize (alloc bootHeap 0xFFFFFFF1).1.mem 0xC0400000 = 0 ∧
      ¬ DeliversRequest bootHeap 0xFFFFFFF1 :=
  ⟨by decide +kernel, by decide +kernel,
    not_deliversRequest bootHeap_layout (by decide) (by decide) List.mem_cons_self rfl⟩

end BrownieOS.Mm
