import BrownieOS.Lib.ByteMemory
import BrownieOS.Lib.Word32

/-!
# The MADT walk of `core/madt.c`

`parse_madt` walks the records of the copied table. What each arm of the switch reads
through its struct pointer is kept as a list of addresses, so that reading past the
table shows; a walk that never ends is one that no number of turns finishes.
-/
namespace BrownieOS.Core

open BrownieOS.Lib BrownieOS.Lib.Word32

abbrev typeLapic : Byte := 0
abbrev typeIoapic : Byte := 1
abbrev typeIoapicIso : Byte := 2
abbrev typeNmiSrc : Byte := 3
abbrev typeLapicNmi : Byte := 4
abbrev typeLapicAddrOvr : Byte := 5

/-- `ioapic_iso_t`. -/
structure IoapicIso where
  type : Byte
  length : Byte
  busSrc : Byte
  irqSrc : Byte
  gsi : Nat
  flags : Nat
  deriving DecidableEq

/-- The globals of `madt.c`, the walk's pointer, and every address read so far. -/
structure MadtState where
  numProcs : BitVec 8
  lapicIds : Nat → Byte
  numIsoEntries : BitVec 8
  isoEntries : Nat → IoapicIso
  lapicAddr : Nat
  ioapicAddr : Nat
  ptr : Nat
  reads : List Nat

/-- The addresses of the fields at `(offset, size)` from `ptr`. -/
def fieldAddrs (ptr : Nat) (fields : List (Nat × Nat)) : List Nat :=
  fields.flatMap fun field => (List.range field.2).map fun k => ptr + field.1 + k

def MadtState.read (s : MadtState) (fields : List (Nat × Nat)) : MadtState :=
  { s with reads := fieldAddrs s.ptr fields ++ s.reads }

/-- `ptr += record->header.length`. -/
def MadtState.advance (m : Mem) (s : MadtState) : MadtState :=
  let s := s.read [(1, 1)]
  { s with ptr := wadd s.ptr (m (s.ptr + 1)).toNat }

def get16 (m : Mem) (a : Nat) : Nat := (m a).toNat + 256 * (m (a + 1)).toNat

/-- `case LAPIC`: the flags, the ids. -/
def lapicRecord (m : Mem) (s : MadtState) : MadtState :=
  let s := s.read [(4, 4), (2, 1), (3, 1)]
  let s := { s with
    lapicIds := Function.update s.lapicIds s.numProcs.toNat (m (s.ptr + 3))
    numProcs := s.numProcs + 1 }
  s.advance m

/-- `case IOAPIC`: the id, the address, the first interrupt. -/
def ioapicRecord (m : Mem) (s : MadtState) : MadtState :=
  let s := s.read [(2, 1), (4, 4), (8, 4)]
  let s := if s.ioapicAddr = 0 then { s with ioapicAddr := m.get32 (s.ptr + 4) } else s
  s.advance m

/-- `*iso`. -/
def loadIso (m : Mem) (ptr : Nat) : IoapicIso :=
  ⟨m ptr, m (ptr + 1), m (ptr + 2), m (ptr + 3), m.get32 (ptr + 4), get16 m (ptr + 8)⟩

/-- `case IOAPIC_ISO`: three fields are printed and the whole record is copied. -/
def ioapicIsoRecord (m : Mem) (s : MadtState) : MadtState :=
  let s := s.read [(3, 1), (4, 4), (8, 2), (0, 10)]
  let s := { s with
    isoEntries := Function.update s.isoEntries s.numIsoEntries.toNat (loadIso m s.ptr)
    numIsoEntries := s.numIsoEntries + 1 }
  s.advance m

/-- The body of the walk: read the type and take its arm. A type without an arm leaves
the pointer where it is. -/
def madtRecord (m : Mem) (s : MadtState) : MadtState :=
  let s := s.read [(0, 1)]
  let type := m s.ptr
  if type = typeLapic then lapicRecord m s
  else if type = typeIoapic then ioapicRecord m s
  else if type = typeIoapicIso then ioapicIsoRecord m s
  else if type = typeNmiSrc then (s.read [(2, 1), (6, 4), (4, 2)]).advance m
  else if type = typeLapicNmi then (s.read [(2, 1), (3, 2), (5, 1)]).advance m
  else if type = typeLapicAddrOvr then (s.read [(4, 8)]).advance m
  else s

/-- The loop of `parse_madt`, with at most `n` turns left. -/
def madtLoop (m : Mem) (madt : Nat) : Nat → MadtState → Option MadtState
  | 0, _ => none
  | n + 1, s =>
    if s.ptr < wadd madt (m.get32 (madt + 4)) then madtLoop m madt n (madtRecord m s) else some s

/-- `parse_madt`, given up after `n` turns. The header's length is read at every turn
of the loop, the address of the local APIC once. -/
def parseMadt (m : Mem) (madt n : Nat) (s : MadtState) : Option MadtState :=
  madtLoop m madt n { s with
    lapicAddr := m.get32 (madt + 36), ptr := wadd madt 44
    reads := fieldAddrs madt [(4, 4), (36, 4)] }

/-- The walk ends, and every address it read lies in the table. -/
def ParsesInside (m : Mem) (madt : Nat) (s : MadtState) : Prop :=
  ∃ n s', parseMadt m madt n s = some s' ∧ ∀ a ∈ s'.reads, a < madt + m.get32 (madt + 4)

/-- The size of the struct an arm reads through, for the types that have one. -/
def recordSize (type : Byte) : Option Nat :=
  if type = typeLapic then some 8
  else if type = typeIoapic then some 12
  else if type = typeIoapicIso then some 10
  else if type = typeNmiSrc then some 10
  else if type = typeLapicNmi then some 6
  else if type = typeLapicAddrOvr then some 12
  else none

/-- From `ptr` on every record reached has a type with an arm, a whole struct before
`stop` and a length that is not 0. -/
inductive RecordsFit (m : Mem) (stop : Nat) : Nat → Prop
  | done {ptr : Nat} : stop ≤ ptr → RecordsFit m stop ptr
  | record {ptr size : Nat} : ptr < stop → recordSize (m ptr) = some size → ptr + size ≤ stop →
      (m (ptr + 1)).toNat ≠ 0 → RecordsFit m stop (ptr + (m (ptr + 1)).toNat) →
      RecordsFit m stop ptr

/-! ## One turn -/

variable {m : Mem} {s s' : MadtState} {madt stop : Nat}

theorem mem_fieldAddrs {ptr a : Nat} {fields : List (Nat × Nat)} : a ∈ fieldAddrs ptr fields ↔
    ∃ field ∈ fields, ptr + field.1 ≤ a ∧ a < ptr + field.1 + field.2 := by
  simp only [fieldAddrs, List.mem_flatMap, List.mem_map, List.mem_range]
  constructor
  · rintro ⟨field, hf, k, hk, rfl⟩
    exact ⟨field, hf, by omega, by omega⟩
  · rintro ⟨field, hf, h₁, h₂⟩
    exact ⟨field, hf, a - (ptr + field.1), by omega, by omega⟩

/-- What a turn does to the pointer and the reads: with an arm, it reads the last byte
of the struct and nothing behind it, and goes on by the length. -/
inductive TurnResult (m : Mem) (s s' : MadtState) : Prop
  | arm (size : Nat) : recordSize (m s.ptr) = some size → s'.ptr = wadd s.ptr (m (s.ptr + 1)).toNat →
      s.ptr + size - 1 ∈ s'.reads →
      (∀ a, a ∈ s'.reads → a ∈ s.reads ∨ s.ptr ≤ a ∧ a < s.ptr + size) →
      (∀ a ∈ s.reads, a ∈ s'.reads) → 0 < size → TurnResult m s s'
  | noArm : recordSize (m s.ptr) = none → s'.ptr = s.ptr → (∀ a ∈ s.reads, a ∈ s'.reads) →
      TurnResult m s s'

/-- The reads of an arm whose fields lie within `size` bytes and end there. -/
theorem turnResult_arm {s₁ : MadtState} {size : Nat} (fields : List (Nat × Nat))
    (hsize : recordSize (m s.ptr) = some size)
    (hptr : s₁.ptr = s.ptr) (hreads : s₁.reads = fieldAddrs s.ptr fields ++ s.reads)
    (hfit : ∀ field ∈ fields, field.1 + field.2 ≤ size)
    (hlast : ∃ field ∈ fields, 0 < field.2 ∧ field.1 + field.2 = size) (h2 : 2 ≤ size) :
    TurnResult m s (s₁.advance m) := by
  have hadv : (s₁.advance m).reads = fieldAddrs s.ptr [(1, 1)] ++ (fieldAddrs s.ptr fields ++ s.reads) := by
    simp only [MadtState.advance, MadtState.read, hptr, hreads]
  have hmem : ∀ a, a ∈ (s₁.advance m).reads ↔ a = s.ptr + 1 ∨
      (∃ field ∈ fields, s.ptr + field.1 ≤ a ∧ a < s.ptr + field.1 + field.2) ∨ a ∈ s.reads := by
    intro a
    rw [hadv, List.mem_append, List.mem_append, mem_fieldAddrs, mem_fieldAddrs]
    refine or_congr ?_ Iff.rfl
    constructor
    · rintro ⟨field, hf, h₁, h₂⟩
      obtain rfl := List.mem_singleton.mp hf
      omega
    · rintro rfl
      exact ⟨(1, 1), List.mem_singleton.mpr rfl, by omega, by omega⟩
  refine .arm size hsize ?_ ?_ ?_ ?_ (by omega)
  · simp only [MadtState.advance, MadtState.read, hptr]
  · obtain ⟨field, hf, hpos, hend⟩ := hlast
    exact (hmem _).mpr (Or.inr (Or.inl ⟨field, hf, by omega, by omega⟩))
  · intro a ha
    rcases (hmem a).mp ha with rfl | ⟨field, hf, h₁, h₂⟩ | ha
    · exact Or.inr ⟨by omega, by omega⟩
    · have := hfit field hf
      exact Or.inr ⟨by omega, by omega⟩
    · exact Or.inl ha
  · exact fun a ha => (hmem a).mpr (Or.inr (Or.inr ha))

theorem fieldAddrs_append (ptr : Nat) (xs ys : List (Nat × Nat)) :
    fieldAddrs ptr (xs ++ ys) = fieldAddrs ptr xs ++ fieldAddrs ptr ys := List.flatMap_append

/-- An arm: it reads its fields, then goes on by the length byte. -/
theorem turnResult_of_reads {s₁ : MadtState} (size : Nat) (fields : List (Nat × Nat))
    (hsize : recordSize (m s.ptr) = some size) (hptr : s₁.ptr = s.ptr)
    (hreads : s₁.reads = ((s.read [(0, 1)]).read fields).reads)
    (hfit : ∀ field ∈ fields, field.1 + field.2 ≤ size)
    (hlast : ∃ field ∈ fields, 0 < field.2 ∧ field.1 + field.2 = size) (h2 : 2 ≤ size) :
    TurnResult m s (s₁.advance m) := by
  refine turnResult_arm (fields ++ [(0, 1)]) hsize hptr ?_ ?_ ?_ h2
  · rw [hreads, fieldAddrs_append, List.append_assoc]
    rfl
  · intro field hf
    rcases List.mem_append.mp hf with hf | hf
    · exact hfit field hf
    · obtain rfl := List.mem_singleton.mp hf
      omega
  · obtain ⟨field, hf, h⟩ := hlast
    exact ⟨field, List.mem_append_left _ hf, h⟩

theorem madtRecord_result (m : Mem) (s : MadtState) : TurnResult m s (madtRecord m s) := by
  have hptr : (s.read [(0, 1)]).ptr = s.ptr := rfl
  rw [madtRecord]
  simp only [hptr]
  split
  · rename_i h
    exact turnResult_of_reads 8 _
      (by simp [recordSize, h]) rfl rfl (by decide) ⟨(4, 4), by decide, by decide⟩ (by decide)
  split
  · rename_i h
    rw [ioapicRecord]
    refine turnResult_of_reads 12 [(2, 1), (4, 4), (8, 4)]
      (by simp [recordSize, h]) ?_ ?_ (by decide) ⟨(8, 4), by decide, by decide⟩ (by decide)
    · split
      · rfl
      · rfl
    · split
      · rfl
      · rfl
  split
  · rename_i h
    exact turnResult_of_reads 10 _
      (by simp [recordSize, h]) rfl rfl (by decide) ⟨(0, 10), by decide, by decide⟩ (by decide)
  split
  · rename_i h
    exact turnResult_of_reads 10 _
      (by simp [recordSize, h]) rfl rfl (by decide) ⟨(6, 4), by decide, by decide⟩ (by decide)
  split
  · rename_i h
    exact turnResult_of_reads 6 _
      (by simp [recordSize, h]) rfl rfl (by decide) ⟨(5, 1), by decide, by decide⟩ (by decide)
  split
  · rename_i h
    exact turnResult_of_reads 12 _
      (by simp [recordSize, h]) rfl rfl (by decide) ⟨(4, 8), by decide, by decide⟩ (by decide)
  · rename_i h₀ h₁ h₂ h₃ h₄ h₅
    refine .noArm ?_ rfl fun a ha => ?_
    · rw [recordSize, if_neg h₀, if_neg h₁, if_neg h₂, if_neg h₃, if_neg h₄, if_neg h₅]
    · exact List.mem_append_right _ ha

/-! ## The walk -/

/-- A table the kernel holds a copy of: the header and the fixed part are there, and the
copy lies in the window the kernel heap is in. -/
structure MadtCopy (m : Mem) (madt : Nat) : Prop where
  fixedPart : 44 ≤ m.get32 (madt + 4)
  inWindow : madt + m.get32 (madt + 4) ≤ 0xF8000000

theorem madtLoop_reads : ∀ n (s : MadtState), madtLoop m madt n s = some s' →
    ∀ a ∈ s.reads, a ∈ s'.reads := by
  intro n
  induction n with
  | zero => intro s h; simp [madtLoop] at h
  | succ n ih =>
    intro s h a ha
    rw [madtLoop] at h
    split at h
    · refine ih _ h a ?_
      cases madtRecord_result m s with
      | arm size _ _ _ _ hkeep _ => exact hkeep a ha
      | noArm _ _ hkeep => exact hkeep a ha
    · rw [← Option.some.inj h]
      exact ha

/-- A walk that ends and stays inside has met only records that fit. -/
theorem recordsFit_of_madtLoop (hcopy : MadtCopy m madt) (hstop : stop = madt + m.get32 (madt + 4)) :
    ∀ n (s : MadtState), s.ptr < 4294967296 → madtLoop m madt n s = some s' →
      (∀ a ∈ s'.reads, a < stop) → RecordsFit m stop s.ptr := by
  have hw := hcopy.inWindow
  have hend : wadd madt (m.get32 (madt + 4)) = stop := by
    rw [hstop]
    exact wadd_of_lt (by omega)
  intro n
  induction n with
  | zero => intro s _ h; simp [madtLoop] at h
  | succ n ih =>
    intro s hs h hreads
    rw [madtLoop, hend] at h
    split at h
    · rename_i hlt
      have hlen := (m (s.ptr + 1)).isLt
      cases madtRecord_result m s with
      | arm size hsize hptr hlast _ _ hpos =>
        have hin := hreads _ (madtLoop_reads _ _ h _ hlast)
        have hadd : wadd s.ptr (m (s.ptr + 1)).toNat = s.ptr + (m (s.ptr + 1)).toNat :=
          wadd_of_lt (by omega)
        have hrest := ih (madtRecord m s) (by rw [hptr]; exact wadd_lt _ _) h hreads
        rw [hptr, hadd] at hrest
        by_cases hzero : (m (s.ptr + 1)).toNat = 0
        · rwa [hzero, Nat.add_zero] at hrest
        · exact .record hlt hsize (by omega) hzero hrest
      | noArm _ hptr _ =>
        have hrest := ih (madtRecord m s) (by rw [hptr]; exact hs) h hreads
        rwa [hptr] at hrest
    · exact .done (by omega)

/-- Records that fit are walked to the end, and nothing behind them is read. -/
theorem madtLoop_of_recordsFit (hcopy : MadtCopy m madt) (hstop : stop = madt + m.get32 (madt + 4))
    {ptr : Nat} (hfit : RecordsFit m stop ptr) : ∀ s : MadtState, s.ptr = ptr →
      (∀ a ∈ s.reads, a < stop) →
      ∃ n s', madtLoop m madt n s = some s' ∧ ∀ a ∈ s'.reads, a < stop := by
  have hw := hcopy.inWindow
  have hend : wadd madt (m.get32 (madt + 4)) = stop := by
    rw [hstop]
    exact wadd_of_lt (by omega)
  induction hfit with
  | @done ptr hge =>
    intro s hptr hreads
    exact ⟨1, s, by rw [madtLoop, hend, if_neg (by omega)], hreads⟩
  | @record ptr size hlt hsize hin hlen _ ih =>
    intro s hptr hreads
    subst hptr
    have hbyte := (m (s.ptr + 1)).isLt
    cases madtRecord_result m s with
    | arm size' hsize' hptr' _ hnew _ _ =>
      rw [hsize] at hsize'
      obtain rfl := Option.some.inj hsize'
      have hadd : wadd s.ptr (m (s.ptr + 1)).toNat = s.ptr + (m (s.ptr + 1)).toNat :=
        wadd_of_lt (by omega)
      obtain ⟨n, s', hloop, hreads'⟩ := ih (madtRecord m s) (hptr'.trans hadd) fun a ha => by
        rcases hnew a ha with ha | ⟨-, ha⟩
        · exact hreads a ha
        · omega
      refine ⟨n + 1, s', ?_, hreads'⟩
      rw [madtLoop, hend, if_pos hlt]
      exact hloop
    | noArm hnone _ _ =>
      rw [hsize] at hnone
      simp at hnone

/-- `parse_madt` ends and stays in the table exactly when every record it reaches has a
type from 0 to 5, a length byte that is not 0 and its whole struct before the end. -/
theorem parseMadt_inside_iff (hcopy : MadtCopy m madt) (s : MadtState) : ParsesInside m madt s ↔
    RecordsFit m (madt + m.get32 (madt + 4)) (madt + 44) := by
  have hw := hcopy.inWindow
  have h44 := hcopy.fixedPart
  have hstart : wadd madt 44 = madt + 44 := wadd_of_lt (by omega)
  have hheader : ∀ a ∈ fieldAddrs madt [(4, 4), (36, 4)], a < madt + m.get32 (madt + 4) := by
    intro a ha
    obtain ⟨field, hf, h₁, h₂⟩ := mem_fieldAddrs.mp ha
    simp only [List.mem_cons, List.not_mem_nil, or_false] at hf
    rcases hf with rfl | rfl
    · simp only at h₂; omega
    · simp only at h₂; omega
  constructor
  · rintro ⟨n, s', hparse, hreads⟩
    have h := recordsFit_of_madtLoop hcopy rfl n _ (wadd_lt _ _) hparse hreads
    rwa [hstart] at h
  · intro hfit
    exact madtLoop_of_recordsFit hcopy rfl hfit _ hstart hheader

/-- A table at 0xC0400010 of `length` bytes whose first record starts with `type` and `size`. -/
def madtOf (length type size : Byte) : Mem := fun a =>
  if a = 0xC0400014 then length else if a = 0xC040003C then type
  else if a = 0xC040003D then size else 0

theorem madtOf_length (length type size : Byte) :
    (madtOf length type size).get32 (0xC0400010 + 4) = length.toNat := by
  simp [Mem.get32, madtOf]

/-- The statics of `parse_madt` as the loader leaves them. -/
def madtStart : MadtState := ⟨0, fun _ => 0, 0, fun _ => ⟨0, 0, 0, 0, 0, 0⟩, 0, 0, 0, []⟩

/-- A table at 0xC0400010 whose records are the given bytes. -/
def madtWith (bytes : List Byte) : Mem := fun a =>
  if a = 0xC0400014 then BitVec.ofNat 8 (44 + bytes.length)
  else if 0xC040003C ≤ a then bytes.getD (a - 0xC040003C) 0 else 0

/-- A record of each type with an arm; that of the local APIC says it is longer than its struct. -/
def recordOfEachType : List Byte :=
  [0, 10, 1, 1, 1, 0, 0, 0, 0, 0] ++ [1, 12, 0, 0, 0, 0, 0xC0, 0xFE, 0, 0, 0, 0] ++
    [2, 10, 0, 0, 2, 0, 0, 0, 0, 0] ++ [3, 10, 0, 0, 0, 0, 8, 0, 0, 0] ++ [4, 6, 1, 0, 0, 1] ++
    [5, 12, 0, 0, 0, 0, 0xE0, 0xFE, 0, 0, 0, 0]

theorem RecordsFit.step {ptr next size : Nat} (hlt : ptr < stop) (hsize : recordSize (m ptr) = some size)
    (hin : ptr + size ≤ stop) (hlen : (m (ptr + 1)).toNat ≠ 0) (hnext : ptr + (m (ptr + 1)).toNat = next)
    (hrest : RecordsFit m stop next) : RecordsFit m stop ptr :=
  .record hlt hsize hin hlen (hnext ▸ hrest)

theorem parseMadt_inside_iff_each_type : ParsesInside (madtWith recordOfEachType) 0xC0400010 madtStart := by
  have hlen : (madtWith recordOfEachType).get32 (0xC0400010 + 4) = 104 := by decide
  have hcopy : MadtCopy (madtWith recordOfEachType) 0xC0400010 := by
    constructor
    · rw [hlen]
      decide
    · rw [hlen]
      decide
  refine (parseMadt_inside_iff hcopy madtStart).mpr ?_
  rw [hlen]
  have hlapicAddrOvr : RecordsFit (madtWith recordOfEachType) (0xC0400010 + 104) 0xC040006C :=
    .step (by decide) (show _ = some 12 by decide) (by decide) (by decide) rfl (.done (by decide))
  have hlapicNmi : RecordsFit (madtWith recordOfEachType) (0xC0400010 + 104) 0xC0400066 :=
    .step (by decide) (show _ = some 6 by decide) (by decide) (by decide) rfl hlapicAddrOvr
  have hnmiSrc : RecordsFit (madtWith recordOfEachType) (0xC0400010 + 104) 0xC040005C :=
    .step (by decide) (show _ = some 10 by decide) (by decide) (by decide) rfl hlapicNmi
  have hioapicIso : RecordsFit (madtWith recordOfEachType) (0xC0400010 + 104) 0xC0400052 :=
    .step (by decide) (show _ = some 10 by decide) (by decide) (by decide) rfl hnmiSrc
  have hioapic : RecordsFit (madtWith recordOfEachType) (0xC0400010 + 104) 0xC0400046 :=
    .step (by decide) (show _ = some 12 by decide) (by decide) (by decide) rfl hioapicIso
  exact .step (by decide) (show _ = some 8 by decide) (by decide) (by decide) rfl hioapic

/-- A record of type 9, which the enumeration lists and the switch does not handle: the
walk stays on it for ever. -/
theorem parseMadt_x2apic_not_inside : MadtCopy (madtOf 60 9 16) 0xC0400010 ∧
    ∀ s, ¬ ParsesInside (madtOf 60 9 16) 0xC0400010 s := by
  have hlen : (madtOf 60 9 16).get32 (0xC0400010 + 4) = 60 := madtOf_length 60 9 16
  have hcopy : MadtCopy (madtOf 60 9 16) 0xC0400010 :=
    ⟨by rw [hlen]; decide, by rw [hlen]; decide⟩
  refine ⟨hcopy, fun s ⟨n, s', hparse, hreads⟩ => ?_⟩
  have hfit := recordsFit_of_madtLoop hcopy rfl n _ (wadd_lt _ _) hparse hreads
  have hstart : wadd 0xC0400010 44 = 0xC040003C := by decide
  rw [hstart, hlen] at hfit
  cases hfit with
  | done h =>
    simp only at h
    omega
  | record _ hsize => exact absurd hsize (by simp [recordSize, madtOf])

end BrownieOS.Core
