import BrownieOS.Mm.KmmFree

/-!
# What `free` reads and writes

The accesses of `free` to tags and to array slots, in the order of the code, and what a
second call on the same pointer does. `kmm_checks` makes all its comparisons, also when
the first has failed, so it follows the footer pointer of a header whose magic is wrong.
-/
namespace BrownieOS.Mm

open BrownieOS.Lib BrownieOS.Lib.Word32 BrownieOS.Core

/-- `size` bytes of memory from `addr` on, or a slot of one of the arrays. -/
inductive KmmAccess where
  | memory (addr size : Nat)
  | headerSlot (i : Nat)
  | footerSlot (i : Nat)

/-- The access lies in `[heap.start, heap.end)` or in the arrays. -/
def KmmAccess.Inside (heap : Heap) : KmmAccess → Prop
  | .memory addr size => heap.start ≤ addr ∧ addr + size ≤ heap.endAddr
  | .headerSlot i => i < heap.headerArray.maxSize
  | .footerSlot i => i < heap.footerArray.maxSize

/-- The slots that `find_ordered_array` reads. -/
def findAccesses (slot : Nat → KmmAccess) (array : Nat → Nat) (val : Nat) : Nat → Nat → List KmmAccess
  | _, 0 => []
  | i, n + 1 => slot i :: if array i = val then [] else findAccesses slot array val (i + 1) n

/-- The slots that `remove_ordered_array` reads and writes, for `n` more turns. -/
def removeAccesses (slot : Nat → KmmAccess) : Nat → Nat → List KmmAccess
  | i, 0 => [slot i]
  | i, n + 1 => slot (i + 1) :: slot i :: removeAccesses slot (i + 1) n

/-- The fields that `kmm_checks` compares. -/
def kmmChecksAccesses (header footer : Nat) : List KmmAccess :=
  [.memory (header + 12) 4, .memory (footer + 8) 8, .memory (header + 4) 4, .memory footer 4]

/-- The fields of a header and of a footer, as they are cleared. -/
def headerFields (header : Nat) : List KmmAccess :=
  [.memory header 4, .memory (header + 4) 4, .memory (header + 8) 4, .memory (header + 12) 4]

def footerFields (footer : Nat) : List KmmAccess :=
  [.memory footer 4, .memory (footer + 4) 4, .memory (footer + 8) 8]

/-- The fields read and written where two blocks become one: the two sizes, then the size
and the pointers between the outer tags. -/
def joinAccesses (header footer nextHeader : Nat) : List KmmAccess :=
  [.memory header 4, .memory nextHeader 4, .memory header 4, .memory (header + 4) 4, .memory footer 4]

/-- A neighbour's array slot, footer pointer and mark, read before a merge is decided. -/
def neighbourAccesses (i header : Nat) : List KmmAccess :=
  [.headerSlot i, .memory (header + 4) 4, .memory (header + 8) 4]

def unifyLeftAccesses (heap : Heap) (header footer : Nat) : List KmmAccess :=
  let index := heap.headerArray.find header
  findAccesses .headerSlot heap.headerArray.array header 0 heap.headerArray.size ++
  if index > 0 then
    let prevHeader := heap.headerArray.get (index - 1)
    let prevFooter := headerFooter heap.mem prevHeader
    neighbourAccesses (index - 1) prevHeader ++
    if headerUsed heap.mem prevHeader = 0 then
      joinAccesses prevHeader footer header ++ headerFields header ++ footerFields prevFooter ++
        removeAccesses .footerSlot (index - 1) (wsub heap.footerArray.size 1 - (index - 1)) ++
        removeAccesses .headerSlot index (wsub heap.headerArray.size 1 - index)
    else []
  else []

def unifyRightAccesses (heap : Heap) (header footer : Nat) : List KmmAccess :=
  let index := heap.headerArray.find header
  findAccesses .headerSlot heap.headerArray.array header 0 heap.headerArray.size ++
  if index < wsub heap.headerArray.size 1 then
    let nextHeader := heap.headerArray.get (index + 1)
    let nextFooter := headerFooter heap.mem nextHeader
    neighbourAccesses (index + 1) nextHeader ++
    if headerUsed heap.mem nextHeader = 0 then
      joinAccesses header nextFooter nextHeader ++ footerFields footer ++ headerFields nextHeader ++
        removeAccesses .footerSlot index (wsub heap.footerArray.size 1 - index) ++
        removeAccesses .headerSlot (index + 1) (wsub heap.headerArray.size 1 - (index + 1))
    else []
  else []

def unifyAccesses (heap : Heap) (header footer : Nat) : List KmmAccess :=
  let left := unifyLeft heap header footer
  unifyLeftAccesses heap header footer ++ unifyRightAccesses left.1 left.2 footer ++
    [.memory (left.2 + 8) 4]

def freeAccesses (heap : Heap) (ptr : Nat) : List KmmAccess :=
  let header := wsub ptr sizeofHeader
  let footer := headerFooter heap.mem header
  .memory (header + 4) 4 ::
  if kmmPrechecks heap = false then []
  else kmmChecksAccesses header footer ++
    if kmmChecks heap.mem header footer = false then [] else unifyAccesses heap header footer

/-- Every access of the list lies in the heap or in the arrays. -/
def AllInside (heap : Heap) (accesses : List KmmAccess) : Prop := ∀ a ∈ accesses, a.Inside heap

variable {heap heap' : Heap} {bs pre post : List Block} {b : Block} {xs ys : List KmmAccess} {a : KmmAccess}

@[simp] theorem allInside_nil : AllInside heap [] := nofun

@[simp] theorem allInside_cons : AllInside heap (a :: xs) ↔ a.Inside heap ∧ AllInside heap xs :=
  List.forall_mem_cons

@[simp] theorem allInside_append :
    AllInside heap (xs ++ ys) ↔ AllInside heap xs ∧ AllInside heap ys := List.forall_mem_append

theorem allInside_find {slot : Nat → KmmAccess} {array : Nat → Nat} {val : Nat} :
    ∀ {n i : Nat}, (∀ j, j < i + n → (slot j).Inside heap) →
      AllInside heap (findAccesses slot array val i n) := by
  intro n
  induction n with
  | zero => exact fun _ => allInside_nil
  | succ n ih =>
    intro i h
    rw [findAccesses, allInside_cons]
    refine ⟨h i (by omega), ?_⟩
    split
    · exact allInside_nil
    · exact ih fun j hj => h j (by omega)

theorem allInside_remove {slot : Nat → KmmAccess} :
    ∀ {n i : Nat}, (∀ j, j ≤ i + n → (slot j).Inside heap) →
      AllInside heap (removeAccesses slot i n) := by
  intro n
  induction n with
  | zero =>
    intro i h
    rw [removeAccesses, allInside_cons]
    exact ⟨h i (by omega), allInside_nil⟩
  | succ n ih =>
    intro i h
    rw [removeAccesses, allInside_cons, allInside_cons]
    exact ⟨h (i + 1) (by omega), h i (by omega), ih fun j hj => h j (by omega)⟩

namespace Layout

/-- The tags of a block lie in the heap. -/
theorem headerFields_inside (h : Layout heap bs) (hb : b ∈ bs) :
    AllInside heap (headerFields b.addr) := by
  have hbound := h.bounds hb
  simp only [headerFields, allInside_cons, allInside_nil, KmmAccess.Inside, and_true]
  omega

theorem footerFields_inside (h : Layout heap bs) (hb : b ∈ bs) :
    AllInside heap (footerFields b.footer) := by
  have hbound := h.bounds hb
  simp only [footerFields, Block.footer, allInside_cons, allInside_nil, KmmAccess.Inside, and_true]
  omega

theorem find_inside (h : Layout heap bs) (val : Nat) : AllInside heap
    (findAccesses .headerSlot heap.headerArray.array val 0 heap.headerArray.size) := by
  have hcap := h.capacity
  apply allInside_find
  intro j hj
  show j < heap.headerArray.maxSize
  omega

/-- `remove_ordered_array` writes up to the last entry and no further. -/
theorem removeHeader_inside (h : Layout heap bs) {i : Nat} (hi : i < bs.length) :
    AllInside heap
      (removeAccesses .headerSlot i (wsub heap.headerArray.size 1 - i)) := by
  have hcap := h.capacity
  have hmax := h.maxBound
  have hlen := h.header_length
  have hsub : wsub heap.headerArray.size 1 = heap.headerArray.size - 1 :=
    wsub_of_le (by omega) (by omega)
  apply allInside_remove
  intro j hj
  rw [hsub] at hj
  show j < heap.headerArray.maxSize
  omega

theorem removeFooter_inside (h : Layout heap bs) {i : Nat} (hi : i < bs.length) :
    AllInside heap
      (removeAccesses .footerSlot i (wsub heap.footerArray.size 1 - i)) := by
  have hcap := h.capacity
  have hmax := h.maxBound
  have hsame := h.sameMax
  have hlen := h.header_length
  have hlen' := h.footer_length
  have hsub : wsub heap.footerArray.size 1 = heap.footerArray.size - 1 :=
    wsub_of_le (by omega) (by omega)
  apply allInside_remove
  intro j hj
  rw [hsub] at hj
  show j < heap.footerArray.maxSize
  omega

/-- What a merge of two neighbours touches. -/
theorem join_inside {l r : Block} (h : Layout heap bs) (hl : l ∈ bs) (hr : r ∈ bs) :
    AllInside heap (joinAccesses l.addr r.footer r.addr) := by
  have hlb := h.bounds hl
  have hrb := h.bounds hr
  simp only [joinAccesses, Block.footer, allInside_cons, allInside_nil, KmmAccess.Inside, and_true]
  omega

theorem neighbour_inside (h : Layout heap bs) (hb : b ∈ bs) {i : Nat} (hi : i < bs.length) :
    AllInside heap (neighbourAccesses i b.addr) := by
  have hbound := h.bounds hb
  have hcap := h.capacity
  have hlen := h.header_length
  simp only [neighbourAccesses, allInside_cons, allInside_nil, KmmAccess.Inside, and_true]
  omega

theorem unifyLeft_inside (h : Layout heap (pre ++ b :: post)) :
    AllInside heap (unifyLeftAccesses heap b.addr b.footer) := by
  simp only [unifyLeftAccesses, h.find_header, allInside_append]
  refine ⟨h.find_inside _, ?_⟩
  rcases pre.eq_nil_or_concat' with rfl | ⟨pre, l, rfl⟩
  · exact allInside_nil
  · have hl : l ∈ pre ++ [l] ++ b :: post := by simp
    have hb : b ∈ pre ++ [l] ++ b :: post := by simp
    have hadj : Layout heap (pre ++ l :: (b :: post)) := by simpa using h
    have hprev : heap.headerArray.get pre.length = l.addr := hadj.get_header
    have hfoot : headerFooter heap.mem l.addr = l.footer := (h.tags l hl).toFooter
    have hi : pre.length + 1 < (pre ++ [l] ++ b :: post).length := by simp
    simp only [List.length_append, List.length_singleton, Nat.add_sub_cancel, Nat.zero_lt_succ,
      gt_iff_lt, ↓reduceIte, hprev, hfoot, allInside_append]
    refine ⟨h.neighbour_inside hl (by omega), ?_⟩
    split
    · simp only [allInside_append]
      exact ⟨⟨⟨⟨h.join_inside hl hb, h.headerFields_inside hb⟩, h.footerFields_inside hl⟩,
        h.removeFooter_inside (by omega)⟩, h.removeHeader_inside hi⟩
    · exact allInside_nil

theorem unifyRight_inside (h : Layout heap (pre ++ b :: post)) :
    AllInside heap (unifyRightAccesses heap b.addr b.footer) := by
  simp only [unifyRightAccesses, h.find_header, allInside_append]
  refine ⟨h.find_inside _, ?_⟩
  cases post with
  | nil =>
    rw [if_neg (by simp [h.last_index])]
    exact allInside_nil
  | cons r post =>
    have hr : r ∈ pre ++ b :: r :: post := by simp
    have hb : b ∈ pre ++ b :: r :: post := by simp
    have hadj : Layout heap ((pre ++ [b]) ++ r :: post) := by simpa using h
    have hnext : heap.headerArray.get (pre.length + 1) = r.addr := by simpa using hadj.get_header
    have hfoot : headerFooter heap.mem r.addr = r.footer := (h.tags r hr).toFooter
    have hi : pre.length + 1 < (pre ++ b :: r :: post).length := by simp
    rw [if_pos (by simp [h.last_index])]
    simp only [hnext, hfoot, allInside_append]
    refine ⟨h.neighbour_inside hr hi, ?_⟩
    split
    · simp only [allInside_append]
      exact ⟨⟨⟨⟨h.join_inside hb hr, h.footerFields_inside hb⟩, h.headerFields_inside hr⟩,
        h.removeFooter_inside (by omega)⟩, h.removeHeader_inside hi⟩
    · exact allInside_nil

end Layout

/-! `free` keeps the bounds of the heap and of the arrays. -/

theorem kept_merge (heap : Heap) (m : Mem) (i j : Nat) :
    Layout.Kept heap { heap with
      mem := m
      footerArray := heap.footerArray.remove i
      headerArray := heap.headerArray.remove j } := ⟨rfl, rfl, rfl, rfl, rfl, rfl, rfl⟩

theorem kept_self (heap : Heap) : Layout.Kept heap heap := ⟨rfl, rfl, rfl, rfl, rfl, rfl, rfl⟩

theorem unifyLeft_kept (heap : Heap) (header footer : Nat) :
    Layout.Kept heap (unifyLeft heap header footer).1 := by
  rw [unifyLeft]
  generalize heap.headerArray.find header = index
  dsimp only
  split
  · split
    · exact kept_merge _ _ _ _
    · exact kept_self heap
  · exact kept_self heap

theorem unifyRight_kept (heap : Heap) (header footer : Nat) :
    Layout.Kept heap (unifyRight heap header footer).1 := by
  rw [unifyRight]
  generalize heap.headerArray.find header = index
  generalize wsub heap.headerArray.size 1 = last
  dsimp only
  split
  · split
    · exact kept_merge _ _ _ _
    · exact kept_self heap
  · exact kept_self heap

theorem unify_bounds (heap : Heap) (header footer : Nat) :
    (unify heap header footer).start = heap.start ∧
      (unify heap header footer).endAddr = heap.endAddr := by
  have hleft := unifyLeft_kept heap header footer
  have hright := unifyRight_kept (unifyLeft heap header footer).1 (unifyLeft heap header footer).2 footer
  simp only [unify, hright.start, hright.endAddr, hleft.start, hleft.endAddr, and_self]

theorem AllInside.of_kept (hk : Layout.Kept heap heap') (h : AllInside heap' xs) :
    AllInside heap xs := by
  intro a ha
  have hin := h a ha
  cases a <;>
    simpa only [KmmAccess.Inside, hk.start, hk.endAddr, hk.headerMax, hk.footerMax] using hin

namespace Layout

/-- `free` on a block of the heap stays inside, whatever it merges. -/
theorem freeAccesses_inside (h : Layout heap (pre ++ b :: post)) :
    AllInside heap (freeAccesses heap b.payload) := by
  have hb : b ∈ pre ++ b :: post := by simp
  have hbound := h.bounds hb
  have hheader : wsub b.payload sizeofHeader = b.addr := by
    simp only [wsub, Block.payload, sizeofHeader]
    omega
  have hfooter : headerFooter heap.mem b.addr = b.footer := (h.tags b hb).toFooter
  obtain ⟨pre', b', hleft, haddr, hfoot, -, -⟩ := h.unifyLeft_layout
  have hright := hleft.unifyRight_inside
  have hmark := hleft.bounds (b := b') (by simp)
  have hkept := unifyLeft_kept heap b.addr b.footer
  rw [hkept.start, hkept.endAddr] at hmark
  rw [hfoot] at hright
  simp only [freeAccesses, hheader, hfooter, h.prechecks, h.checks hb, Bool.true_eq_false, ↓reduceIte,
    unifyAccesses, haddr, allInside_cons, allInside_append, allInside_nil, and_true]
  refine ⟨?_, ?_, ⟨h.unifyLeft_inside, hright.of_kept hkept⟩, ?_⟩
  · simp only [KmmAccess.Inside]
    omega
  · simp only [kmmChecksAccesses, Block.footer, allInside_cons, allInside_nil, KmmAccess.Inside, and_true]
    omega
  · simp only [KmmAccess.Inside]
    omega

end Layout

/-! ## The second call -/

namespace Layout

/-- A block that is free between used neighbours is freed once more to no effect. -/
theorem free_again (h : Layout heap (pre ++ b :: post)) (hu : b.used = false)
    (hpre : ∀ l ∈ pre.getLast?, l.used = true) (hpost : ∀ r ∈ post.head?, r.used = true) :
    free heap b.payload = heap := by
  have hleft : unifyLeft heap b.addr b.footer = (heap, b.addr) := by
    rcases pre.eq_nil_or_concat' with rfl | ⟨pre, l, rfl⟩
    · exact unifyLeft_first h
    · have hadj : Layout heap (pre ++ l :: b :: post) := by simpa using h
      exact unifyLeft_used hadj (hpre l (by simp))
  have hright : unifyRight heap b.addr b.footer = (heap, b.footer) := by
    cases post with
    | nil => exact unifyRight_last h
    | cons r post => exact unifyRight_used h (hpost r rfl)
  have hmark : setHeaderUsed heap.mem b.addr 0 = heap.mem := by
    have hused : heap.mem.get32 (b.addr + 8) = 0 := by
      have htag := (h.tags b (by simp)).used
      rwa [hu] at htag
    rw [setHeaderUsed, ← hused]
    exact Mem.set32_get32_self _ _
  rw [h.free_eq_unify (by simp), unify]
  simp only [hleft, hright, hmark]

end Layout

/-- What `unify_left` clears stays cleared while the block's right neighbour is absorbed. -/
theorem absorbRightTags_between {m : Mem} {header footer nextHeader nextFooter x : Nat}
    (_ : header + 8 ≤ x) (_ : x + 4 ≤ footer) (_ : footer + 16 ≤ nextHeader)
    (_ : nextHeader + 16 ≤ nextFooter) :
    (absorbRightTags m header footer nextHeader nextFooter).get32 x = m.get32 x := by
  simp only [absorbRightTags, setFooterHeader, setFooterMagic, setFooterRes, setHeaderSize,
    setHeaderFooter, setHeaderUsed, setHeaderMagic, headerSize]
  simp (disch := omega) only [Mem.get32_set32_of_apart, Mem.get32_set64_of_apart]

theorem absorbLeftTags_cleared {m : Mem} {prevHeader prevFooter header footer : Nat}
    (_ : prevHeader + 16 ≤ prevFooter) (_ : prevFooter + 16 = header) (_ : header + 16 ≤ footer) :
    headerFooter (absorbLeftTags m prevHeader prevFooter header footer) header = 0 ∧
      headerMagic (absorbLeftTags m prevHeader prevFooter header footer) header = 0 := by
  simp only [absorbLeftTags, setFooterHeader, setFooterMagic, setFooterRes, setHeaderSize,
    setHeaderFooter, setHeaderUsed, setHeaderMagic, headerSize, headerFooter, headerMagic]
  constructor
  · simp (disch := omega) [Mem.get32_set32_of_apart, Mem.get32_set64_of_apart]
  · simp (disch := omega) [Mem.get32_set32_of_apart, Mem.get32_set64_of_apart]

namespace Layout

/-- `unify_right` writes outside what lies between the marks of the block. -/
theorem unifyRight_between (h : Layout heap (pre ++ b :: post)) {x : Nat} (hx : b.addr + 8 ≤ x)
    (hx' : x + 4 ≤ b.footer) :
    (unifyRight heap b.addr b.footer).1.mem.get32 x = heap.mem.get32 x := by
  cases post with
  | nil => rw [unifyRight_last h]
  | cons r post =>
    cases hu : r.used with
    | true => rw [unifyRight_used h hu]
    | false =>
      obtain ⟨-, -, hadj, -, -⟩ := h.tiles.around
      simp only [Block.stop] at hadj
      rw [unifyRight_free h hu]
      simp only [Block.footer] at hx' ⊢
      exact absorbRightTags_between hx hx' (by omega) (by omega)

/-- A block freed next to a free left neighbour loses its header. -/
theorem free_clears {l : Block} (h : Layout heap (pre ++ l :: b :: post)) (hu : l.used = false) :
    headerFooter (free heap b.payload).mem b.addr = 0 ∧
      headerMagic (free heap b.payload).mem b.addr = 0 := by
  obtain ⟨-, -, hadj, -, -⟩ := h.tiles.around
  have hend := h.bounds (b := b) (by simp)
  have hadj' : l.addr + 32 + l.size = b.addr := hadj.symm
  obtain ⟨heap₁, hleft, hlayout, hmem⟩ : ∃ heap₁, unifyLeft heap b.addr b.footer = (heap₁, l.addr) ∧
      Layout heap₁ (pre ++ fuse l b :: post) ∧
      heap₁.mem = absorbLeftTags heap.mem l.addr l.footer b.addr b.footer := by
    obtain ⟨htags, hagree⟩ := absorbLeft_tags (h.tags l (by simp)) (h.tags b (by simp)) hadj.symm
      (by omega)
    exact ⟨_, unifyLeft_free h hu, fuse_layout h rfl htags hagree, rfl⟩
  have haddr : (fuse l b).addr = l.addr := rfl
  have hfoot : (fuse l b).footer = b.footer := fuse_footer hadj.symm
  have hkept : ∀ x, b.addr ≤ x → x + 4 ≤ b.footer →
      (free heap b.payload).mem.get32 x =
        (absorbLeftTags heap.mem l.addr l.footer b.addr b.footer).get32 x := by
    intro x h₁ h₂
    have hright := hlayout.unifyRight_between (x := x) (by rw [haddr]; omega) (by rw [hfoot]; exact h₂)
    rw [hfoot, haddr] at hright
    rw [h.free_eq_unify (by simp), unify]
    simp only [hleft, setHeaderUsed]
    rw [Mem.get32_set32_of_apart _ _ (by omega), ← hmem]
    exact hright
  rw [headerFooter, headerMagic, hkept _ (by omega) (by simp only [Block.footer]; omega),
    hkept _ (by omega) (by simp only [Block.footer]; omega)]
  apply absorbLeftTags_cleared
  all_goals
    simp only [Block.footer]
    omega

end Layout

/-- A second `free` of the same pointer changes nothing and touches nothing outside. -/
def DoubleFreeCaught (heap : Heap) (ptr : Nat) : Prop :=
  free (free heap ptr) ptr = free heap ptr ∧
    AllInside (free heap ptr) (freeAccesses (free heap ptr) ptr)

/-- `free` of a pointer whose header was cleared: the checks refuse it, after a look at the
footer the cleared header points to, at address 0. -/
theorem free_cleared (h : kmmPrechecks heap = true) {ptr header : Nat}
    (hptr : wsub ptr sizeofHeader = header) (hfooter : headerFooter heap.mem header = 0)
    (hmagic : headerMagic heap.mem header = 0) :
    free heap ptr = heap ∧ freeAccesses heap ptr = .memory (header + 4) 4 :: kmmChecksAccesses header 0 := by
  have hchecks : kmmChecks heap.mem header 0 = false := by
    simp [kmmChecks, hmagic]
  constructor
  · simp [free, hptr, hfooter, h, hchecks]
  · simp [freeAccesses, hptr, hfooter, h, hchecks]

open Layout (LeftMerge)

/-- Next to a used left neighbour, or to none, the block keeps its header. -/
theorem caught_of_left_used (h : WellFormed heap (pre ++ b :: post))
    (hpre : ∀ l ∈ pre.getLast?, l.used = true) : DoubleFreeCaught heap b.payload := by
  have hlay := h.toLayout
  obtain ⟨pre', b₁, b₂, post', hl, hleft, hright, -⟩ := hlay.free_layout
  obtain ⟨-, hpost, -, -⟩ := separated_around.mp h.separated
  obtain ⟨-, hhead, -⟩ := hright.used_after hpost
  obtain ⟨haddr, -⟩ := hright.stop
  cases hleft with
  | @merge _ l _ hu _ =>
    have hlu := hpre l (by simp)
    rw [hu] at hlu
    cases hlu
  | keep _ =>
    have hpayload : ({ b₂ with used := false } : Block).payload = b.payload := by
      simp only [Block.payload, haddr]
    have hagain := hl.free_again rfl hpre hhead
    have hinside := hl.freeAccesses_inside
    rw [hpayload] at hagain hinside
    exact ⟨hagain, hinside⟩

/-- Next to a free left neighbour the header is cleared, and the second call looks for a
footer at address 0. -/
theorem caught_of_left_free {l : Block} (h : Layout heap (pre ++ l :: b :: post))
    (hu : l.used = false) : DoubleFreeCaught heap b.payload ↔ heap.start = 0 := by
  have hb : b ∈ pre ++ l :: b :: post := by simp
  have hbound := h.bounds hb
  have hlbound := h.bounds (b := l) (by simp)
  obtain ⟨hfooter, hmagic⟩ := h.free_clears hu
  have hchecked : kmmPrechecks (free heap b.payload) = true := by
    have hlay : Layout heap ((pre ++ [l]) ++ b :: post) := by simpa using h
    obtain ⟨pre', b₁, b₂, post', hl, -⟩ := hlay.free_layout
    exact hl.prechecks
  have hheader : wsub b.payload sizeofHeader = b.addr := by
    simp only [wsub, Block.payload, sizeofHeader]
    omega
  obtain ⟨hstart, hend⟩ := unify_bounds heap b.addr b.footer
  rw [← h.free_eq_unify hb] at hstart hend
  obtain ⟨hagain, haccesses⟩ := free_cleared hchecked hheader hfooter hmagic
  rw [DoubleFreeCaught, hagain, haccesses]
  simp only [kmmChecksAccesses, allInside_cons, allInside_nil, KmmAccess.Inside, hstart, hend, true_and,
    and_true]
  omega

/-- A second `free` of a block's payload is caught exactly if the block was not fused with a
left neighbour the first time, the case of a heap at address 0 apart. -/
theorem double_free_caught_iff (h : WellFormed heap (pre ++ b :: post)) :
    DoubleFreeCaught heap b.payload ↔ heap.start = 0 ∨ ∀ l ∈ pre.getLast?, l.used = true := by
  constructor
  · intro hcaught
    rcases pre.eq_nil_or_concat' with rfl | ⟨pre, l, rfl⟩
    · exact Or.inr (by simp)
    · have hlay : Layout heap (pre ++ l :: b :: post) := by simpa using h.toLayout
      cases hu : l.used with
      | true => exact Or.inr (by simp [hu])
      | false => exact Or.inl ((caught_of_left_free hlay hu).mp hcaught)
  · intro hcond
    rcases pre.eq_nil_or_concat' with rfl | ⟨pre, l, rfl⟩
    · exact caught_of_left_used h (by simp)
    · have hlay : Layout heap (pre ++ l :: b :: post) := by simpa using h.toLayout
      cases hu : l.used with
      | true => exact caught_of_left_used h (by simp [hu])
      | false =>
        refine (caught_of_left_free hlay hu).mpr ?_
        simpa [hu] using hcond

theorem double_free_caught_first :
    DoubleFreeCaught (filledHeap 1) 0xC0400010 ↔
      (filledHeap 1).start = 0 ∨ ∀ l ∈ ([] : List Block).getLast?, l.used = true := by
  have hwell : WellFormed (filledHeap 1) ([] ++ ⟨0xC0400000, 16, true⟩ :: [filledRest 1]) :=
    filledHeap_wellFormed (show 1 ≤ 4095 by decide)
  exact @double_free_caught_iff (filledHeap 1) [] [filledRest 1] ⟨0xC0400000, 16, true⟩ hwell

/-- The heap after two requests of 16 bytes, of which the first was given back. -/
theorem freedFirst_wellFormed :
    WellFormed (free (filledHeap 2) 0xC0400010)
      [⟨0xC0400000, 16, false⟩, ⟨0xC0400030, 16, true⟩, filledRest 2] := by
  have hlay : Layout (filledHeap 2)
      ([] ++ ⟨0xC0400000, 16, true⟩ :: [⟨0xC0400030, 16, true⟩, filledRest 2]) :=
    (filledHeap_layout (show 2 ≤ 4095 by decide)).1
  obtain ⟨pre', b₁, b₂, post', hl, hleft, hright, -⟩ := hlay.free_layout
  generalize hpre : ([] : List Block) = p at hleft
  cases hleft with
  | merge _ _ => simp at hpre
  | keep _ =>
    subst hpre
    cases hright with
    | merge hu _ => cases hu
    | keep _ => exact ⟨hl, by simp [Separated]⟩

/-- Giving the second block back twice makes `kmm_checks` read at address 0. -/
theorem double_free_escapes :
    WellFormed (free (filledHeap 2) 0xC0400010)
      [⟨0xC0400000, 16, false⟩, ⟨0xC0400030, 16, true⟩, filledRest 2] ∧
    ¬ DoubleFreeCaught (free (filledHeap 2) 0xC0400010) 0xC0400040 := by
  refine ⟨freedFirst_wellFormed, fun hcaught => ?_⟩
  have hlay : Layout (free (filledHeap 2) 0xC0400010)
      ([] ++ ⟨0xC0400000, 16, false⟩ :: ⟨0xC0400030, 16, true⟩ :: [filledRest 2]) :=
    freedFirst_wellFormed.toLayout
  have hzero := (caught_of_left_free hlay rfl).mp hcaught
  have hbound := hlay.tiles.1
  rw [hzero] at hbound
  cases hbound

end BrownieOS.Mm
