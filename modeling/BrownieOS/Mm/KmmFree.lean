import BrownieOS.Mm.KmmFull

/-!
# What `free` does to the blocks

A freed block is fused with its free neighbours, left before right; the four cases of
`FreedAs` are the four kinds of neighbours. Every other used block keeps its place, its
size and its payload.
-/
namespace BrownieOS.Mm

open BrownieOS.Lib BrownieOS.Lib.Word32 BrownieOS.Core

/-- Tags and arrays spell the blocks, and no two neighbours are free. -/
structure WellFormed (heap : Heap) (bs : List Block) : Prop extends Layout heap bs where
  separated : Separated bs

/-- The block that freeing `b` between `pre` and `post` leaves, what is before and behind it
then, and the number of merges. -/
inductive FreedAs : List Block → Block → List Block → List Block → Block → List Block → Nat → Prop
  | alone {pre post : List Block} {b : Block} : (∀ l ∈ pre.getLast?, l.used = true) →
      (∀ r ∈ post.head?, r.used = true) → FreedAs pre b post pre ⟨b.addr, b.size, false⟩ post 0
  | left {pre post : List Block} {l b : Block} : l.used = false →
      (∀ r ∈ post.head?, r.used = true) →
      FreedAs (pre ++ [l]) b post pre ⟨l.addr, l.size + b.size + 32, false⟩ post 1
  | right {pre post : List Block} {b r : Block} : (∀ l ∈ pre.getLast?, l.used = true) →
      r.used = false → FreedAs pre b (r :: post) pre ⟨b.addr, b.size + r.size + 32, false⟩ post 1
  | both {pre post : List Block} {l b r : Block} : l.used = false → r.used = false →
      FreedAs (pre ++ [l]) b (r :: post) pre ⟨l.addr, l.size + b.size + r.size + 64, false⟩ post 2

/-- What freeing `b` keeps, with `merges` blocks gone. -/
structure FreeKeeps (heap heap' : Heap) (bs bs' : List Block) (b : Block) (merges : Nat) : Prop where
  wellFormed : WellFormed heap' bs'
  usedBlocks : ∀ c, c.used = true → (c ∈ bs' ↔ c ∈ bs ∧ c ≠ b)
  payloads : ∀ c ∈ bs', c.used = true → ∀ a, c.payload ≤ a → a < c.payload + c.size →
    heap'.mem a = heap.mem a
  headers : heap'.headerArray.size + merges = heap.headerArray.size
  footers : heap'.footerArray.size + merges = heap.footerArray.size

variable {heap : Heap} {bs pre post pre' post' : List Block} {b b₁ b₂ c : Block} {merges : Nat}

open Layout (LeftMerge RightMerge fuse)

/-- The two merges of `unify` in one. -/
theorem freedAs_of_merges (hl : LeftMerge pre b pre' b₁) (hr : RightMerge b₁ post b₂ post') :
    ∃ merges, FreedAs pre b post pre' { b₂ with used := false } post' merges ∧
      pre'.length + 1 + post'.length + merges = pre.length + 1 + post.length := by
  cases hl with
  | keep hleft =>
    cases hr with
    | keep hright => exact ⟨0, .alone hleft hright, rfl⟩
    | merge hru _ =>
      refine ⟨1, .right hleft hru, ?_⟩
      simp only [List.length_cons]
      omega
  | @merge _ l _ hlu _ =>
    cases hr with
    | keep hright =>
      refine ⟨1, .left hlu hright, ?_⟩
      simp only [List.length_append, List.length_singleton]
      omega
    | @merge _ _ r hru _ =>
      have hsize : fuse (fuse l b) r = ⟨l.addr, l.size + b.size + r.size + 64, l.used⟩ := by
        simp only [fuse, Block.mk.injEq, true_and, and_true]
        omega
      rw [hsize]
      refine ⟨2, .both hlu hru, ?_⟩
      simp only [List.length_append, List.length_cons, List.length_nil]
      omega

/-- A merge takes only free blocks away. -/
theorem mem_used_before (h : LeftMerge pre b pre' b₁) (hc : c.used = true) : c ∈ pre' ↔ c ∈ pre := by
  cases h with
  | keep _ => exact Iff.rfl
  | @merge _ l _ hu _ =>
    have hne : c ≠ l := by
      intro he
      rw [he, hu] at hc
      cases hc
    simp [hne]

theorem mem_used_after (h : RightMerge b post b₁ post') (hc : c.used = true) :
    c ∈ post' ↔ c ∈ post := by
  cases h with
  | keep _ => exact Iff.rfl
  | @merge _ _ r hu _ =>
    have hne : c ≠ r := by
      intro he
      rw [he, hu] at hc
      cases hc
    simp [hne]

/-- In a tiling a block stands at one place only. -/
theorem Layout.not_mem_around (h : Layout heap (pre ++ b :: post)) : b ∉ pre ∧ b ∉ post := by
  have hnodup := h.tiles.nodup_start
  rw [List.map_append, List.map_cons] at hnodup
  obtain ⟨-, hright, hapart⟩ := List.nodup_append.mp hnodup
  refine ⟨fun hmem => ?_, fun hmem => ?_⟩
  · exact hapart _ (List.mem_map_of_mem hmem) _ List.mem_cons_self rfl
  · exact (List.nodup_cons.mp hright).1 (List.mem_map_of_mem hmem)

/-- `free` on a block of a well-formed heap. -/
theorem free_end_to_end (h : WellFormed heap bs) (hb : b ∈ bs) :
    ∃ pre post pre' merged post' merges, bs = pre ++ b :: post ∧
      FreedAs pre b post pre' merged post' merges ∧
      FreeKeeps heap (free heap b.payload) bs (pre' ++ merged :: post') b merges := by
  obtain ⟨pre, post, rfl⟩ := List.append_of_mem hb
  have hlay := h.toLayout
  obtain ⟨pre', b₁, b₂, post', hl, hleft, hright, hagree⟩ := hlay.free_layout
  obtain ⟨hpre, hpost, -, -⟩ := separated_around.mp h.separated
  obtain ⟨hpre', hlast, -⟩ := hleft.used_before hpre
  obtain ⟨hpost', hhead, -⟩ := hright.used_after hpost
  obtain ⟨merges, hfreed, hcount⟩ := freedAs_of_merges hleft hright
  refine ⟨pre, post, pre', _, post', merges, rfl, hfreed, ⟨hl, ?_⟩, ?_, ?_, ?_, ?_⟩
  · exact separated_around.mpr
      ⟨hpre', hpost', fun l h => Or.inl (hlast l h), fun r h => Or.inr (hhead r h)⟩
  · intro c hc
    obtain ⟨hnotl, hnotr⟩ := hlay.not_mem_around
    have hmerged : c ≠ { b₂ with used := false } := by
      intro he
      rw [he] at hc
      cases hc
    simp only [List.mem_append, List.mem_cons, hmerged, false_or, mem_used_before hleft hc,
      mem_used_after hright hc]
    constructor
    · rintro (hmem | hmem)
      · exact ⟨Or.inl hmem, fun he => hnotl (he ▸ hmem)⟩
      · exact ⟨Or.inr (Or.inr hmem), fun he => hnotr (he ▸ hmem)⟩
    · rintro ⟨hmem | he | hmem, hne⟩
      · exact Or.inl hmem
      · exact absurd he hne
      · exact Or.inr hmem
  · intro c hc hcu a h₁ h₂
    have hother : c ∈ pre' ∨ c ∈ post' := by
      rcases List.mem_append.mp hc with hc | hc
      · exact Or.inl hc
      · rcases List.mem_cons.mp hc with rfl | hc
        · cases hcu
        · exact Or.inr hc
    have hapart := hl.tiles.apart hother
    simp only [Block.stop] at hapart
    simp only [Block.payload] at h₁ h₂
    apply hagree
    simp only [Block.stop]
    omega
  · rw [hl.header_length, hlay.header_length, List.length_append, List.length_append,
      List.length_cons, List.length_cons]
    omega
  · rw [hl.footer_length, hlay.footer_length, List.length_append, List.length_append,
      List.length_cons, List.length_cons]
    omega

theorem filledHeap_wellFormed {n : Nat} (hn : n ≤ 4095) :
    WellFormed (filledHeap n) (filledBlocks n ++ [filledRest n]) where
  toLayout := (filledHeap_layout hn).1
  separated := by
    rw [Separated, List.isChain_append]
    refine ⟨?_, List.isChain_singleton _, ?_⟩
    · rw [filledBlocks, List.isChain_map]
      exact List.isChain_iff_getElem.mpr fun _ _ => Or.inl rfl
    · intro x hx y _
      obtain ⟨i, -, rfl⟩ := List.mem_map.mp (List.mem_of_mem_getLast? hx)
      exact Or.inl rfl

theorem free_end_to_end_first :
    ∃ pre post pre' merged post' merges,
      filledBlocks 2 ++ [filledRest 2] = pre ++ ⟨0xC0400000, 16, true⟩ :: post ∧
      FreedAs pre ⟨0xC0400000, 16, true⟩ post pre' merged post' merges ∧
      FreeKeeps (filledHeap 2) (free (filledHeap 2) 0xC0400010) (filledBlocks 2 ++ [filledRest 2])
        (pre' ++ merged :: post') ⟨0xC0400000, 16, true⟩ merges :=
  free_end_to_end (filledHeap_wellFormed (by decide)) (by decide)

end BrownieOS.Mm
