import BrownieOS.Lib.Ledger
import BrownieOS.Mm.Frames
import Mathlib.Data.Nat.Bitwise

/-!
# The boot memory map of `mm/paging.c`

`reserve_mem_map` walks the entries of the Multiboot memory map and calls `reserve` on
the low words of each region that is not available. The pages `reserve` marks are given
in closed form, and the whole map is honoured exactly when these pages and the pages the
regions meet are the same.
-/
namespace BrownieOS.Mm

open BrownieOS.Lib BrownieOS.Lib.Word32

/-- `multiboot_memory_map_t`, one 24-byte entry. -/
structure MmapEntry where
  size : BitVec 32
  addrLow : BitVec 32
  addrHigh : BitVec 32
  lenLow : BitVec 32
  lenHigh : BitVec 32
  type : BitVec 32
  deriving DecidableEq

/-- `multiboot_info_t`: the flags, and the entries at `mmap_addr`. -/
structure MultibootInfo where
  flags : BitVec 32
  mmap : List MmapEntry

def pageRoundDown (x : Nat) : Nat := x &&& 0xFFFFF000
def pageRoundUp (x : Nat) : Nat := if x % 0x1000 ≠ 0 then wadd (x &&& 0xFFFFF000) 0x1000 else x

/-- The loop of `reserve`, with at most `n` turns left. Its counter has 64 bits. -/
def reserveLoop (framemap : FrameMap) (endAddr : Nat) : Nat → Nat → FrameMap
  | 0, _ => framemap
  | n + 1, addr =>
    if addr < endAddr then reserveLoop (setFrame framemap addr) endAddr n (addr + pageSize)
    else framemap

/-- `reserve`. The end has 32 bits, so the loop takes at most one turn a frame. -/
def reserve (framemap : FrameMap) (start length : Nat) : FrameMap :=
  let start := pageRoundDown start
  let length := pageRoundUp length
  let endAddr := wsub (wadd start length) 1
  reserveLoop framemap endAddr 0x100000 start

/-- `reserve_mem_map`; `none` when it panics. -/
def reserveMemMap (framemap : FrameMap) (mbd : MultibootInfo) : Option FrameMap :=
  if mbd.flags &&& 0x00000020 = 0 then none
  else some (mbd.mmap.foldl (fun framemap mmap =>
    if mmap.type ≠ 1 then reserve framemap mmap.addrLow.toNat mmap.lenLow.toNat
    else framemap) framemap)

/-! ## The region of an entry -/

namespace MmapEntry

def base (e : MmapEntry) : Nat := e.addrHigh.toNat * 4294967296 + e.addrLow.toNat
def length (e : MmapEntry) : Nat := e.lenHigh.toNat * 4294967296 + e.lenLow.toNat

/-- Some byte of the region lies in frame `f`. -/
def Meets (e : MmapEntry) (f : Nat) : Prop := ∃ a, e.base ≤ a ∧ a < e.base + e.length ∧ a / 4096 = f

end MmapEntry

/-- A map is honoured: no panic, the frames that regions not available meet are used,
and no other bit changes, whatever the bitmap was. -/
def HonoursMap (mbd : MultibootInfo) : Prop :=
  ∀ framemap, ∃ framemap', reserveMemMap framemap mbd = some framemap' ∧ ∀ f < nFrames,
    (framemap'.test f = true ↔
      framemap.test f = true ∨ ∃ e ∈ mbd.mmap, e.type ≠ 1 ∧ e.Meets f)

/-! ## What `reserve` marks -/

theorem pageRoundDown_eq {x : Nat} (h : x < 4294967296) : pageRoundDown x = x / 4096 * 4096 := by
  apply Nat.eq_of_testBit_eq
  intro i
  rw [pageRoundDown, Nat.testBit_and, show (4096 : Nat) = 2 ^ 12 from rfl, Nat.testBit_mul_two_pow,
    Nat.testBit_div_two_pow]
  by_cases hi : 12 ≤ i
  · by_cases hi' : i < 32
    · have hall : ∀ k < 32, 12 ≤ k → (0xFFFFF000 : Nat).testBit k = true := by decide
      rw [hall i hi' hi]
      simp [hi, Nat.sub_add_cancel hi]
    · have hpow : 2 ^ 32 ≤ 2 ^ i := Nat.pow_le_pow_right (by decide) (Nat.le_of_not_lt hi')
      have hx : x.testBit i = false := Nat.testBit_lt_two_pow (Nat.lt_of_lt_of_le h hpow)
      simp [hx, hi, Nat.sub_add_cancel hi]
  · have hall : ∀ k < 12, (0xFFFFF000 : Nat).testBit k = false := by decide
    rw [hall i (by omega)]
    simp [hi]

theorem pageRoundUp_eq {x : Nat} (h : x < 4294967296) :
    pageRoundUp x = (x + 4095) / 4096 * 4096 % 4294967296 := by
  rw [pageRoundUp]
  split
  · have hdown : x &&& 0xFFFFF000 = x / 4096 * 4096 := pageRoundDown_eq h
    rw [hdown, wadd]
    omega
  · omega

/-- The pages `reserve` marks: rounding the length can give 0 modulo 4 GiB, and the
inclusive end can lie before the start. -/
def reservedPages (start length : Nat) : Range :=
  let first := start / 4096
  let count := (length + 4095) / 4096 % 0x100000
  if count = 0 then if first = 0 then ⟨0, 0x100000⟩ else ⟨first, 0⟩
  else if first + count ≤ 0x100000 then ⟨first, count⟩ else ⟨first, 0⟩

theorem reserveLoop_test {endAddr : Nat} : ∀ n (framemap : FrameMap) (addr : Nat), addr % 4096 = 0 →
    endAddr ≤ addr + n * 4096 → ∀ f, (reserveLoop framemap endAddr n addr).test f =
      (framemap.test f || decide (addr ≤ f * 4096 ∧ f * 4096 < endAddr)) := by
  intro n
  induction n with
  | zero =>
    intro framemap addr ha hn f
    rw [reserveLoop, decide_eq_false (by omega), Bool.or_false]
  | succ n ih =>
    intro framemap addr ha hn f
    rw [reserveLoop]
    split
    · rename_i hlt
      rw [ih _ _ (by simp only [pageSize]; omega) (by simp only [pageSize]; omega), setFrame_eq,
        Bitmap.test_set (by decide), Bool.or_comm (decide _) (framemap.test f), Bool.or_assoc,
        ← Bool.decide_or]
      simp only [pageSize]
      congr 2
      apply propext
      omega
    · rename_i hge
      rw [decide_eq_false (by omega), Bool.or_false]

theorem reserve_test (framemap : FrameMap) {start length f : Nat} (hs : start < 4294967296)
    (hl : length < 4294967296) : (reserve framemap start length).test f =
      (framemap.test f || decide ((reservedPages start length).Mem f)) := by
  have hend := wsub_lt (wadd (pageRoundDown start) (pageRoundUp length)) 1
  rw [reserve, reserveLoop_test _ _ _ (by rw [pageRoundDown_eq hs]; omega) (by omega)]
  congr 2
  apply propext
  rw [pageRoundDown_eq hs, pageRoundUp_eq hl, Range.Mem, reservedPages]
  simp only [wadd, wsub]
  split
  · split
    · simp only
      omega
    · simp only
      omega
  · split
    · simp only
      omega
    · simp only
      omega

/-! ## Which regions `reserve` covers -/

/-- Frame `f` holds a byte of `[start, start + length)`. -/
def RegionMeets (start length f : Nat) : Prop := ∃ a, start ≤ a ∧ a < start + length ∧ a / 4096 = f

/-- From any bitmap, the frames with a byte of the region become used and no other bit changes. -/
def ReserveCovers (start length : Nat) : Prop :=
  ∀ framemap f, (reserve framemap start length).test f = true ↔
    framemap.test f = true ∨ RegionMeets start length f

theorem regionMeets_iff {start length f : Nat} (hl : 1 ≤ length) :
    RegionMeets start length f ↔ start / 4096 ≤ f ∧ f ≤ (start + length - 1) / 4096 := by
  constructor
  · rintro ⟨a, h₁, h₂, rfl⟩
    omega
  · rintro ⟨h₁, h₂⟩
    by_cases hfirst : f = start / 4096
    · exact ⟨start, Nat.le_refl _, by omega, hfirst.symm⟩
    · exact ⟨4096 * f, by omega, by omega, by omega⟩

/-- What `reserve` marks and what it should mark, without the bitmap. -/
theorem reserveCovers_iff_pages {start length : Nat} (hs : start < 4294967296)
    (hl : length < 4294967296) :
    ReserveCovers start length ↔
      ∀ f, (reservedPages start length).Mem f ↔ RegionMeets start length f := by
  constructor
  · intro h f
    have hclear : Bitmap.test (fun _ => 0 : FrameMap) f = false := by simp [Bitmap.test]
    have hf := h (fun _ => 0) f
    rw [reserve_test _ hs hl, hclear] at hf
    simpa using hf
  · intro h framemap f
    rw [reserve_test _ hs hl, Bool.or_eq_true, decide_eq_true_iff, h f]

/-- `reserve` covers its region exactly when the offset of the start does not push the last
byte of the rounded length over a page boundary. -/
theorem reserve_covers_iff {start length : Nat} (hs : start < 4294967296) (hl : 1 ≤ length)
    (hl' : length < 4294967296) (hend : start + length ≤ 4294967296) :
    ReserveCovers start length ↔ start % 4096 + (length - 1) % 4096 < 4096 := by
  rw [reserveCovers_iff_pages hs hl']
  simp only [regionMeets_iff hl]
  constructor
  · intro h
    by_contra hover
    -- the last page of the region is one behind the last page marked
    have hlast := (h ((start + length - 1) / 4096)).mpr ⟨by omega, Nat.le_refl _⟩
    rw [Range.Mem, reservedPages] at hlast
    split at hlast
    · split at hlast
      · simp only at hlast
        omega
      · simp only at hlast
        omega
    · split at hlast
      · simp only at hlast
        omega
      · simp only at hlast
        omega
  · intro hfits f
    rw [Range.Mem, reservedPages]
    split
    · split
      · simp only
        omega
      · simp only
        omega
    · split
      · simp only
        omega
      · simp only
        omega

theorem reserve_covers_first_page : ReserveCovers 0 0x400000 :=
  (reserve_covers_iff (by decide) (by decide) (by decide) (by decide)).mpr (by decide)

/-- Two bytes across a page boundary: the page of the second is left free. -/
theorem reserve_misses_last_page :
    RegionMeets 0xFFF 2 1 ∧ (reserve (fun _ => 0) 0xFFF 2).test 1 = false ∧
      ¬ ReserveCovers 0xFFF 2 := by
  have hmeets : RegionMeets 0xFFF 2 1 := ⟨0x1000, by decide, by decide, by decide⟩
  have hfree : (reserve (fun _ => 0) 0xFFF 2).test 1 = false := by
    rw [reserve_test _ (by decide) (by decide)]
    decide
  refine ⟨hmeets, hfree, fun h => ?_⟩
  have hused := (h (fun _ => 0) 1).mpr (Or.inr hmeets)
  rw [hfree] at hused
  cases hused

/-- The frames a region not available has marked. -/
def Reserves (e : MmapEntry) (f : Nat) : Prop :=
  e.type ≠ 1 ∧ (reservedPages e.addrLow.toNat e.lenLow.toNat).Mem f

theorem reserveEntries_test (f : Nat) : ∀ (mmap : List MmapEntry) (framemap : FrameMap),
    ((mmap.foldl (fun framemap mmap =>
      if mmap.type ≠ 1 then reserve framemap mmap.addrLow.toNat mmap.lenLow.toNat
      else framemap) framemap).test f = true ↔
        framemap.test f = true ∨ ∃ e ∈ mmap, Reserves e f) := by
  intro mmap
  induction mmap with
  | nil => simp
  | cons e mmap ih =>
    intro framemap
    rw [List.foldl_cons, ih]
    simp only [List.mem_cons, exists_eq_or_imp, ← or_assoc]
    refine or_congr ?_ Iff.rfl
    by_cases htype : e.type = 1
    · simp [htype, Reserves]
    · rw [if_pos htype, reserve_test framemap e.addrLow.isLt e.lenLow.isLt, Bool.or_eq_true,
        decide_eq_true_iff]
      exact or_congr Iff.rfl ⟨fun h => ⟨htype, h⟩, fun h => h.2⟩

/-- The memory map is honoured exactly when bit 5 of the flags, not bit 6, is set and
the pages reserved for the entries' low words are the pages their regions meet. -/
theorem memory_map_honoured_iff (mbd : MultibootInfo) : HonoursMap mbd ↔
    mbd.flags &&& 0x00000020 ≠ 0 ∧ ∀ f < nFrames,
      (∃ e ∈ mbd.mmap, e.type ≠ 1 ∧ (reservedPages e.addrLow.toNat e.lenLow.toNat).Mem f) ↔
        ∃ e ∈ mbd.mmap, e.type ≠ 1 ∧ e.Meets f := by
  constructor
  · intro h
    obtain ⟨framemap', hcall, hbits⟩ := h fun _ => 0
    have hflag : mbd.flags &&& 0x00000020 ≠ 0 := by
      intro hz
      rw [reserveMemMap, if_pos hz] at hcall
      simp at hcall
    refine ⟨hflag, fun f hf => ?_⟩
    rw [reserveMemMap, if_neg hflag] at hcall
    have hclear : Bitmap.test (fun _ => 0 : FrameMap) f = false := by simp [Bitmap.test]
    have hmarked := reserveEntries_test f mbd.mmap fun _ => 0
    have hwant := hbits f hf
    rw [← Option.some.inj hcall, hmarked, hclear] at hwant
    simpa [Reserves] using hwant
  · rintro ⟨hflag, hpages⟩ framemap
    refine ⟨_, by rw [reserveMemMap, if_neg hflag], fun f hf => ?_⟩
    rw [reserveEntries_test, ← hpages f hf]
    rfl

/-- A block with a memory map and no ELF section table: the kernel panics. -/
theorem memory_map_not_honoured :
    (0x40#32).getLsbD 6 = true ∧ ¬ HonoursMap ⟨0x40, []⟩ := by
  refine ⟨by decide, fun h => ?_⟩
  obtain ⟨framemap', hcall, -⟩ := h fun _ => 0
  exact absurd hcall (by simp [reserveMemMap])

end BrownieOS.Mm
