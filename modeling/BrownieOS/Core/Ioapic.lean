import BrownieOS.Core.AcpiWindow
import BrownieOS.Core.MadtRecords
import Mathlib.Data.List.Nodup

/-!
# Programming the IOAPIC: `core/interrupts/ioapic.c`

The chip stands in physical memory and is reached through the address that `kmap` gives for
it; an access through an address that is not mapped faults. A register reads as what has
been written to the chip so far makes of it, which is left open. `init_ioapic` goes through
the redirection entries with one cursor into the overrides, which moves on only past an
override that it meets, so an override is honoured if the ones before it come in ascending
order, or if it changes nothing.
-/
namespace BrownieOS.Core

open BrownieOS.Lib BrownieOS.Lib.Word32 BrownieOS.Mm

abbrev ioapicVerReg : Nat := 0x01

/-- `IOAPIC_RED_TBL_REG`. -/
def ioapicRedTblReg (n : Nat) : Nat := 0x10 + 2 * n

/-- `redir_entry_lo_t`. -/
structure RedirEntryLo where
  vector : BitVec 8
  delivMode : BitVec 3
  destMode : Bool
  delivStatus : Bool
  pinPolarity : Bool
  remoteIrr : Bool
  triggerMode : Bool
  masked : Bool
  reserved : BitVec 15
  deriving DecidableEq

/-- `redir_entry_hi_t`. -/
structure RedirEntryHi where
  reserved : BitVec 24
  dest : BitVec 8
  deriving DecidableEq

def RedirEntryLo.encode (e : RedirEntryLo) : Nat :=
  e.vector.toNat + 256 * e.delivMode.toNat + 2048 * e.destMode.toNat +
    4096 * e.delivStatus.toNat + 8192 * e.pinPolarity.toNat + 16384 * e.remoteIrr.toNat +
    32768 * e.triggerMode.toNat + 65536 * e.masked.toNat + 131072 * e.reserved.toNat

def RedirEntryHi.encode (e : RedirEntryHi) : Nat := e.reserved.toNat + 16777216 * e.dest.toNat

/-- An IOAPIC: IOREGSEL is at its physical address and IOREGWIN 0x10 behind it. What a
register reads as depends on the writes so far, the last one first. -/
structure IoapicChip where
  base : Nat
  aligned : base % 256 = 0
  register : List (Nat × Nat) → Nat → Nat

/-- The memory, `ioapic` and `gsi_count`; in the chip, the selected register and the writes. -/
structure IoapicState where
  mem : Mem
  ioapic : Nat
  gsiCount : BitVec 8
  select : Nat
  writes : List (Nat × Nat)

/-- A volatile 32-bit store at a virtual address, `none` on a page fault. -/
def storeWord (chip : IoapicChip) (image : KernelImage) (va val : Nat) (s : IoapicState) :
    Option IoapicState :=
  (Mm.translate s.mem image.dirPaddr va).map fun p =>
    if p = chip.base then { s with select := val % 256 }
    else if p = chip.base + 0x10 then { s with writes := (s.select, val) :: s.writes }
    else { s with mem := s.mem.set32 p val }

/-- A volatile 32-bit load at a virtual address. -/
def loadWord (chip : IoapicChip) (image : KernelImage) (va : Nat) (s : IoapicState) : Option Nat :=
  (Mm.translate s.mem image.dirPaddr va).map fun p =>
    if p = chip.base then s.select
    else if p = chip.base + 0x10 then chip.register s.writes s.select
    else s.mem.get32 p

def writeIoapic (chip : IoapicChip) (image : KernelImage) (reg val : Nat) (s : IoapicState) :
    Option IoapicState := do
  let s ← storeWord chip image s.ioapic reg s
  storeWord chip image (wadd s.ioapic 0x10) val s

def readIoapic (chip : IoapicChip) (image : KernelImage) (reg : Nat) (s : IoapicState) :
    Option (Nat × IoapicState) := do
  let s ← storeWord chip image s.ioapic reg s
  let val ← loadWord chip image (wadd s.ioapic 0x10) s
  return (val, s)

/-- The vector of redirection entry `i`, and the cursor behind it. -/
def chooseVector (gsiEntries : Nat → IoapicIso) (gsiCount : BitVec 8) (i : Nat) :
    BitVec 8 × BitVec 8 :=
  if i = (gsiEntries gsiCount.toNat).gsi then
    (32 + (gsiEntries gsiCount.toNat).irqSrc, gsiCount + 1)
  else (BitVec.ofNat 8 (32 + i), gsiCount)

/-- The body of the loop of `init_ioapic`. The two entries on the stack start as `stale`;
what is read back at the end is not used. -/
def initIoapicEntry (chip : IoapicChip) (image : KernelImage)
    (stale : Nat → RedirEntryLo × RedirEntryHi) (gsiEntries : Nat → IoapicIso) (i : Nat)
    (s : IoapicState) : Option IoapicState := do
  let loIdx := ioapicRedTblReg i % 256
  let hiIdx := (ioapicRedTblReg i + 1) % 256
  let (lo, s) ← readIoapic chip image loIdx s
  let (hi, s) ← readIoapic chip image hiIdx s
  let chosen := chooseVector gsiEntries s.gsiCount i
  let s := { s with gsiCount := chosen.2 }
  let entryLo : RedirEntryLo := { (stale i).1 with
    vector := chosen.1
    delivMode := 0
    destMode := false
    delivStatus := false
    pinPolarity := false
    triggerMode := false
    masked := false
    reserved := BitVec.ofNat 15 (lo / 131072) }
  let entryHi : RedirEntryHi := { (stale i).2 with reserved := BitVec.ofNat 24 hi }
  let s ← writeIoapic chip image loIdx entryLo.encode s
  let s ← writeIoapic chip image hiIdx entryHi.encode s
  let (_, s) ← readIoapic chip image loIdx s
  let (_, s) ← readIoapic chip image hiIdx s
  return s

/-- The loop, for `n` more entries from `i` on. -/
def initIoapicLoop (chip : IoapicChip) (image : KernelImage)
    (stale : Nat → RedirEntryLo × RedirEntryHi) (gsiEntries : Nat → IoapicIso) :
    Nat → Nat → IoapicState → Option IoapicState
  | _, 0, s => some s
  | i, n + 1, s => do
    let s ← initIoapicEntry chip image stale gsiEntries i s
    initIoapicLoop chip image stale gsiEntries (i + 1) n s

/-- `init_ioapic`, with the address from `get_ioapic_addr`. The version read first is only
printed, and `max_redir_entries` has 8 bits. -/
def initIoapic (chip : IoapicChip) (image : KernelImage)
    (stale : Nat → RedirEntryLo × RedirEntryHi) (ioapicAddr : Nat) (gsiEntries : Nat → IoapicIso)
    (s : IoapicState) : Option IoapicState := do
  let mapped := kmap image.dir s.mem ioapicAddr
  let s := { s with mem := mapped.1, ioapic := mapped.2 }
  let (_, s) ← readIoapic chip image ioapicVerReg s
  let (ver, s) ← readIoapic chip image ioapicVerReg s
  let maxRedirEntries := BitVec.ofNat 8 (ver / 65536 % 256 + 1)
  initIoapicLoop chip image stale gsiEntries 0 maxRedirEntries.toNat s

/-- Before the call. -/
def ioapicStart (m : Mem) (select : Nat) : IoapicState := ⟨m, 0, 0, select, []⟩

/-- The number of redirection entries that the chip reports. -/
def IoapicChip.redirEntries (chip : IoapicChip) : Nat :=
  chip.register [] ioapicVerReg / 65536 % 256 + 1

/-- The vector last written to redirection entry `i`. -/
def IoapicState.vector (s : IoapicState) (i : Nat) : Option Nat :=
  (s.writes.find? fun w => w.1 = ioapicRedTblReg i).map fun w => w.2 % 256

/-- The vector that an interrupt should get. -/
def wantedVector (isos : List IoapicIso) (i : Nat) : Nat :=
  match isos.find? fun o => o.gsi = i with
  | some o => 32 + o.irqSrc.toNat
  | none => 32 + i

/-- The call returns, with every one of the `n` entries programmed as the overrides say. -/
def HonoursOverrides (isos : List IoapicIso) (n : Nat) (result : Option IoapicState) : Prop :=
  ∃ s, result = some s ∧ ∀ i < n, s.vector i = some (wantedVector isos i)

/-- The entries come in ascending order up to the one at `j`. -/
def Ascending (gsiEntries : Nat → IoapicIso) (j : Nat) : Prop :=
  ∀ a < j, (gsiEntries a).gsi < (gsiEntries (a + 1)).gsi

/-- The cursor gets to the override. -/
def Reached (gsiEntries : Nat → IoapicIso) (o : IoapicIso) : Prop :=
  ∃ j < 256, gsiEntries j = o ∧ Ascending gsiEntries j

/-! ## The cursor -/

section Cursor

variable {gsiEntries : Nat → IoapicIso} {i c j : Nat}

theorem Ascending.mono (h : Ascending gsiEntries j) {k : Nat} (hk : k ≤ j) : Ascending gsiEntries k :=
  fun a ha => h a (by omega)

theorem Ascending.lt (h : Ascending gsiEntries j) {a : Nat} (ha : a < j) :
    (gsiEntries a).gsi < (gsiEntries j).gsi := by
  induction j with
  | zero => exact absurd ha (Nat.not_lt_zero a)
  | succ j ih =>
    have hlast := h j (Nat.lt_succ_self j)
    by_cases he : a = j
    · rw [he]
      exact hlast
    · exact Nat.lt_trans (ih (h.mono (Nat.le_succ j)) (by omega)) hlast

/-- The cursor before entry `i`: what is behind it was met, in ascending order, and it is
stuck if it has been passed over. -/
structure Cursor (gsiEntries : Nat → IoapicIso) (i c : Nat) : Prop where
  behind : c ≤ i
  met : ∀ a < c, (gsiEntries a).gsi < i
  ascending : ∀ a, a + 1 < c → (gsiEntries a).gsi < (gsiEntries (a + 1)).gsi
  stuck : (gsiEntries c).gsi < i → 0 < c ∧ (gsiEntries c).gsi ≤ (gsiEntries (c - 1)).gsi

theorem Cursor.start : Cursor gsiEntries 0 0 where
  behind := Nat.le_refl 0
  met := fun _ h => absurd h (Nat.not_lt_zero _)
  ascending := fun _ h => absurd h (Nat.not_lt_zero _)
  stuck := fun h => absurd h (Nat.not_lt_zero _)

/-- An override met at the cursor is one that the cursor gets to, and the other way round. -/
theorem Cursor.meets_iff (h : Cursor gsiEntries i c) : (gsiEntries c).gsi = i ∧ j = c ↔
    (gsiEntries j).gsi = i ∧ Ascending gsiEntries j := by
  constructor
  · rintro ⟨hmeets, rfl⟩
    refine ⟨hmeets, fun a ha => ?_⟩
    by_cases hlast : a + 1 = j
    · rw [hlast, hmeets]
      exact h.met a ha
    · exact h.ascending a (by omega)
  · rintro ⟨hmeets, hasc⟩
    have hc : j = c := by
      by_contra hne
      rcases Nat.lt_or_gt_of_ne hne with hlt | hgt
      · have hmet := h.met j hlt
        omega
      · have hbelow := hasc.lt hgt
        obtain ⟨hpos, hstuck⟩ := h.stuck (by omega)
        have hstep := hasc (c - 1) (by omega)
        rw [Nat.sub_add_cancel hpos] at hstep
        omega
    exact ⟨hc ▸ hmeets, hc⟩

theorem Cursor.next (h : Cursor gsiEntries i c) :
    Cursor gsiEntries (i + 1) (if i = (gsiEntries c).gsi then c + 1 else c) := by
  have hb := h.behind
  split
  · rename_i hmeets
    refine ⟨by omega, fun a ha => ?_, fun a ha => ?_, fun hpassed => ⟨by omega, ?_⟩⟩
    · by_cases he : a = c
      · rw [he, ← hmeets]
        omega
      · have := h.met a (by omega)
        omega
    · by_cases he : a + 1 = c
      · rw [he, ← hmeets]
        exact h.met a (by omega)
      · exact h.ascending a (by omega)
    · rw [Nat.add_sub_cancel, ← hmeets]
      omega
  · rename_i hpasses
    refine ⟨by omega, fun a ha => ?_, h.ascending, fun hpassed => h.stuck (by omega)⟩
    have := h.met a ha
    omega

end Cursor

/-! ## Through the mapping -/

section Access

variable {chip : IoapicChip} {image : KernelImage} {s s' : IoapicState}

/-- `ioapic` leads to the chip. -/
structure ChipMapped (chip : IoapicChip) (image : KernelImage) (s : IoapicState) : Prop where
  select : Mm.translate s.mem image.dirPaddr s.ioapic = some chip.base
  window : Mm.translate s.mem image.dirPaddr (wadd s.ioapic 0x10) = some (chip.base + 0x10)

theorem ChipMapped.of_eq (h : ChipMapped chip image s) (hmem : s'.mem = s.mem)
    (hptr : s'.ioapic = s.ioapic) : ChipMapped chip image s' := by
  constructor
  · rw [hmem, hptr]
    exact h.select
  · rw [hmem, hptr]
    exact h.window

theorem ChipMapped.write (h : ChipMapped chip image s) (reg val : Nat) :
    writeIoapic chip image reg val s =
      some { s with select := reg % 256, writes := (reg % 256, val) :: s.writes } := by
  have hselect : storeWord chip image s.ioapic reg s = some { s with select := reg % 256 } := by
    rw [storeWord, h.select, Option.map_some, if_pos rfl]
  have hwindow := h.window
  rw [writeIoapic, hselect]
  show storeWord chip image (wadd s.ioapic 0x10) val { s with select := reg % 256 } = _
  rw [storeWord, hwindow, Option.map_some, if_neg (by omega), if_pos rfl]

theorem ChipMapped.read (h : ChipMapped chip image s) (reg : Nat) :
    readIoapic chip image reg s =
      some (chip.register s.writes (reg % 256), { s with select := reg % 256 }) := by
  have hselect : storeWord chip image s.ioapic reg s = some { s with select := reg % 256 } := by
    rw [storeWord, h.select, Option.map_some, if_pos rfl]
  have hwindow : loadWord chip image (wadd s.ioapic 0x10) { s with select := reg % 256 } =
      some (chip.register s.writes (reg % 256)) := by
    rw [loadWord, h.window, Option.map_some, if_neg (by omega), if_pos rfl]
  rw [readIoapic, hselect]
  show (loadWord chip image (wadd s.ioapic 0x10) { s with select := reg % 256 }).bind _ = _
  rw [hwindow]
  rfl

/-- Without a page behind it the first access faults. -/
theorem readIoapic_unmapped (h : Mm.translate s.mem image.dirPaddr s.ioapic = none) (reg : Nat) :
    readIoapic chip image reg s = none := by
  rw [readIoapic, storeWord, h]
  rfl

/-- The address that `kmap` gives for the chip leads to it. -/
theorem chipMapped_kmap {m : Mem} (hb : BootDirectory m image) (h0 : chip.base ≠ 0)
    (hbase : chip.base < 4294967296) (hreach : KmapReaches image m chip.base)
    (hmem : s.mem = (kmap image.dir m chip.base).1) (hptr : s.ioapic = (kmap image.dir m chip.base).2) :
    ChipMapped chip image s := by
  have htr := hb.translate_kmap h0 hbase ((hb.kmap_reaches_iff hbase).2 hreach)
  have hlt := kmap_lt image m chip.base
  have hal := chip.aligned
  rw [← hmem, ← hptr] at htr
  rw [← hptr] at hlt
  have hoff : s.ioapic % 4096 = chip.base % 4096 := by
    obtain ⟨found, -, hto⟩ := Option.map_eq_some_iff.1 htr
    simp only [framePaddr] at hto
    omega
  refine ⟨htr, ?_⟩
  rw [wadd_of_lt (by omega), Mm.translate_add (by omega), htr]
  rfl

end Access

/-! ## The loop -/

section Loop

variable {chip : IoapicChip} {image : KernelImage} {stale : Nat → RedirEntryLo × RedirEntryHi}
  {gsiEntries : Nat → IoapicIso} {i k n : Nat} {s s' : IoapicState}

/-- The vector is the low byte of the entry. -/
theorem RedirEntryLo.encode_mod (e : RedirEntryLo) : e.encode % 256 = e.vector.toNat := by
  unfold RedirEntryLo.encode
  omega

/-- What the turn for entry `i` leaves. -/
structure EntryTurn (chip : IoapicChip) (image : KernelImage) (gsiEntries : Nat → IoapicIso) (i : Nat)
    (s s' : IoapicState) : Prop where
  mapped : ChipMapped chip image s'
  cursor : s'.gsiCount = (chooseVector gsiEntries s.gsiCount i).2
  writes : ∃ lo hi, s'.writes =
      ((ioapicRedTblReg i + 1) % 256, hi) :: (ioapicRedTblReg i % 256, lo) :: s.writes ∧
    lo % 256 = (chooseVector gsiEntries s.gsiCount i).1.toNat

theorem ChipMapped.entry (h : ChipMapped chip image s) (stale : Nat → RedirEntryLo × RedirEntryHi)
    (gsiEntries : Nat → IoapicIso) (i : Nat) : ∃ s',
    initIoapicEntry chip image stale gsiEntries i s = some s' ∧ EntryTurn chip image gsiEntries i s s' := by
  have hread : ∀ (t : IoapicState) (reg : Nat), t.mem = s.mem → t.ioapic = s.ioapic →
      readIoapic chip image reg t =
        some (chip.register t.writes (reg % 256), { t with select := reg % 256 }) :=
    fun t reg hmem hptr => ChipMapped.read (h.of_eq hmem hptr) reg
  have hwrite : ∀ (t : IoapicState) (reg val : Nat), t.mem = s.mem → t.ioapic = s.ioapic →
      writeIoapic chip image reg val t =
        some { t with select := reg % 256, writes := (reg % 256, val) :: t.writes } :=
    fun t reg val hmem hptr => ChipMapped.write (h.of_eq hmem hptr) reg val
  simp only [initIoapicEntry, hread, hwrite, Option.bind_eq_bind, Option.bind_some, Option.pure_def,
    Nat.mod_mod]
  exact ⟨_, rfl, h.of_eq rfl rfl, rfl, _, _, rfl, RedirEntryLo.encode_mod _⟩

/-- The entries before `k` are programmed from where the cursor was, and the chip is still
reached. -/
structure Programmed (chip : IoapicChip) (image : KernelImage) (gsiEntries : Nat → IoapicIso) (k : Nat)
    (s : IoapicState) : Prop where
  mapped : ChipMapped chip image s
  cursor : Cursor gsiEntries k s.gsiCount.toNat
  vectors : ∀ i < k, ∃ c : BitVec 8, Cursor gsiEntries i c.toNat ∧
    s.vector i = some (chooseVector gsiEntries c i).1.toNat

theorem Programmed.turn (h : Programmed chip image gsiEntries k s)
    (ht : EntryTurn chip image gsiEntries k s s') (hk : k < 120) :
    Programmed chip image gsiEntries (k + 1) s' := by
  obtain ⟨lo, hi, hwrites, hlo⟩ := ht.writes
  constructor
  · exact ht.mapped
  · have hnext := h.cursor.next
    have hbehind := h.cursor.behind
    rw [ht.cursor]
    unfold chooseVector
    split at hnext
    · rename_i hmeets
      have hone : (s.gsiCount + 1).toNat = s.gsiCount.toNat + 1 := by
        rw [BitVec.toNat_add, show (1 : BitVec 8).toNat = 1 from rfl]
        omega
      rw [if_pos hmeets, hone]
      exact hnext
    · rename_i hpasses
      rwa [if_neg hpasses]
  · intro i hi'
    unfold IoapicState.vector
    rw [hwrites]
    by_cases hlast : i = k
    · subst hlast
      refine ⟨s.gsiCount, h.cursor, ?_⟩
      have h₁ : ¬ (ioapicRedTblReg i + 1) % 256 = ioapicRedTblReg i := by
        simp only [ioapicRedTblReg]
        omega
      have h₂ : ioapicRedTblReg i % 256 = ioapicRedTblReg i := by
        simp only [ioapicRedTblReg]
        omega
      simp [h₁, h₂, hlo]
    · obtain ⟨c, hcursor, hvector⟩ := h.vectors i (by omega)
      refine ⟨c, hcursor, ?_⟩
      have h₁ : ¬ (ioapicRedTblReg k + 1) % 256 = ioapicRedTblReg i := by
        simp only [ioapicRedTblReg]
        omega
      have h₂ : ¬ ioapicRedTblReg k % 256 = ioapicRedTblReg i := by
        simp only [ioapicRedTblReg]
        omega
      rw [List.find?_cons_of_neg (by simpa using h₁), List.find?_cons_of_neg (by simpa using h₂)]
      exact hvector

theorem Programmed.loop (h : Programmed chip image gsiEntries k s) (stale : Nat → RedirEntryLo × RedirEntryHi)
    (hn : k + n ≤ 120) : ∃ s',
    initIoapicLoop chip image stale gsiEntries k n s = some s' ∧
      Programmed chip image gsiEntries (k + n) s' := by
  induction n generalizing k s with
  | zero => exact ⟨s, rfl, h⟩
  | succ n ih =>
    obtain ⟨s₁, hentry, hturn⟩ := h.mapped.entry stale gsiEntries k
    obtain ⟨s', hrest, hdone⟩ := ih (h.turn hturn (by omega)) (by omega)
    rw [Nat.add_assoc, Nat.add_comm 1 n] at hdone
    refine ⟨s', ?_, hdone⟩
    rw [initIoapicLoop, hentry]
    exact hrest

/-- The index of a register has 8 bits. -/
theorem ChipMapped.loop_regs (h : ChipMapped chip image s) (hs : ∀ w ∈ s.writes, w.1 < 256)
    (stale : Nat → RedirEntryLo × RedirEntryHi) (gsiEntries : Nat → IoapicIso) (k n : Nat) : ∃ s',
    initIoapicLoop chip image stale gsiEntries k n s = some s' ∧ ∀ w ∈ s'.writes, w.1 < 256 := by
  induction n generalizing k s with
  | zero => exact ⟨s, rfl, hs⟩
  | succ n ih =>
    obtain ⟨s₁, hentry, hturn⟩ := h.entry stale gsiEntries k
    obtain ⟨lo, hi, hwrites, -⟩ := hturn.writes
    have hregs : ∀ w ∈ s₁.writes, w.1 < 256 := by
      rw [hwrites]
      intro w hw
      rcases List.mem_cons.1 hw with rfl | hw
      · exact Nat.mod_lt _ (by decide)
      · rcases List.mem_cons.1 hw with rfl | hw
        · exact Nat.mod_lt _ (by decide)
        · exact hs w hw
    obtain ⟨s', hrest, hdone⟩ := ih (k := k + 1) hturn.mapped hregs
    refine ⟨s', ?_, hdone⟩
    rw [initIoapicLoop, hentry]
    exact hrest

/-- So the registers of entry 120 are never written. -/
theorem vector_120 (hs : ∀ w ∈ s.writes, w.1 < 256) : s.vector 120 = none := by
  unfold IoapicState.vector
  rw [Option.map_eq_none_iff, List.find?_eq_none]
  intro w hw
  have := hs w hw
  have hreg : w.1 ≠ ioapicRedTblReg 120 := by
    simp only [ioapicRedTblReg]
    omega
  simpa using hreg

end Loop

/-! ## Which overrides are honoured -/

section Overrides

variable {chip : IoapicChip} {image : KernelImage} {mem : Mem} {select : Nat}
  {stale : Nat → RedirEntryLo × RedirEntryHi} {gsiEntries : Nat → IoapicIso}
  {isos : List IoapicIso} {addr i n : Nat} {o : IoapicIso}

/-- An override that the cursor gets to is one of the list, or the list is empty. -/
theorem cell_listed (hcells : RingHolds 256 madtStart.isoEntries isos gsiEntries) {j : Nat}
    (hj : j < 256) (hasc : Ascending gsiEntries j) :
    gsiEntries j ∈ isos ∨ isos = [] ∧ gsiEntries j = madtStart.isoEntries 0 := by
  rcases hcells.mem_or_blank hj with hmem | ⟨hshort, hblank⟩
  · exact Or.inl hmem
  · right
    have hj0 : j = 0 := by
      by_contra hpos
      have hstep := hasc.lt (a := 0) (by omega)
      rw [hblank] at hstep
      exact absurd hstep (Nat.not_lt_zero _)
    subst hj0
    exact ⟨List.length_eq_zero_iff.1 (Nat.le_zero.1 hshort), hblank⟩

/-- One entry is programmed as wanted exactly when its override, if there is one, fits an
8-bit vector and is reached or changes nothing. -/
theorem chosen_wanted_iff (hcells : RingHolds 256 madtStart.isoEntries isos gsiEntries)
    (hdistinct : (isos.map IoapicIso.gsi).Nodup) {c : BitVec 8} (hc : Cursor gsiEntries i c.toNat)
    (hi : i < 120) : (chooseVector gsiEntries c i).1.toNat = wantedVector isos i ↔
      ∀ o ∈ isos, o.gsi = i → o.irqSrc.toNat ≤ 223 ∧ (o.irqSrc.toNat = i ∨ Reached gsiEntries o) := by
  have hplain : (BitVec.ofNat 8 (32 + i)).toNat = 32 + i := by
    rw [BitVec.toNat_ofNat]
    omega
  unfold wantedVector
  cases hfind : isos.find? fun o => o.gsi = i with
  | none =>
    have hnone : ∀ o ∈ isos, o.gsi ≠ i := by
      intro o ho
      simpa using List.find?_eq_none.1 hfind o ho
    refine iff_of_true ?_ fun o ho hgsi => absurd hgsi (hnone o ho)
    unfold chooseVector
    split
    · rename_i hmeets
      obtain ⟨-, hasc⟩ := hc.meets_iff.1 ⟨hmeets.symm, rfl⟩
      rcases cell_listed hcells c.isLt hasc with hmem | ⟨-, hblank⟩
      · exact absurd hmeets.symm (hnone _ hmem)
      · rw [hblank] at hmeets ⊢
        rw [hmeets]
        rfl
    · exact hplain
  | some o =>
    have ho := List.mem_of_find?_eq_some hfind
    have hgsi : o.gsi = i := by simpa using List.find?_some hfind
    have honly : ∀ o' ∈ isos, o'.gsi = i → o' = o := fun o' ho' hgsi' =>
      List.inj_on_of_nodup_map hdistinct ho' ho (hgsi'.trans hgsi.symm)
    have hrest : (∀ o' ∈ isos, o'.gsi = i → o'.irqSrc.toNat ≤ 223 ∧
        (o'.irqSrc.toNat = i ∨ Reached gsiEntries o')) ↔
          o.irqSrc.toNat ≤ 223 ∧ (o.irqSrc.toNat = i ∨ Reached gsiEntries o) :=
      ⟨fun h => h o ho hgsi, fun h o' ho' hgsi' => by rw [honly o' ho' hgsi']; exact h⟩
    rw [hrest]
    unfold chooseVector
    split
    · rename_i hmeets
      obtain ⟨-, hasc⟩ := hc.meets_iff.1 ⟨hmeets.symm, rfl⟩
      have hcell : gsiEntries c.toNat = o := by
        rcases cell_listed hcells c.isLt hasc with hmem | ⟨hempty, -⟩
        · exact honly _ hmem hmeets.symm
        · rw [hempty] at ho
          cases ho
      have hreached : Reached gsiEntries o := ⟨c.toNat, c.isLt, hcell, hasc⟩
      have hirq := o.irqSrc.isLt
      rw [hcell]
      simp only [hreached, or_true, and_true, BitVec.toNat_add, show (32 : BitVec 8).toNat = 32 from rfl]
      omega
    · rename_i hpasses
      have hnot : ¬ Reached gsiEntries o := by
        rintro ⟨j, -, hcell, hasc⟩
        obtain ⟨hmeets, -⟩ := hc.meets_iff.2 ⟨(congrArg IoapicIso.gsi hcell).trans hgsi, hasc⟩
        exact hpasses hmeets.symm
      simp only [hnot, or_false, hplain]
      omega

/-- The call up to the loop: it faults, or goes on with the chip mapped. -/
theorem initIoapic_start (stale : Nat → RedirEntryLo × RedirEntryHi) (gsiEntries : Nat → IoapicIso)
    (select : Nat) (hb : BootDirectory mem image) (haddr : addr < 4294967296)
    (hchip : addr ≠ 0 → chip.base = addr) (hn : chip.redirEntries = n) (hn' : n ≤ 255) :
    (¬ KmapReaches image mem addr ∧
        initIoapic chip image stale addr gsiEntries (ioapicStart mem select) = none) ∨
      KmapReaches image mem addr ∧ ∃ s, s.writes = [] ∧ s.gsiCount = 0 ∧ ChipMapped chip image s ∧
        initIoapic chip image stale addr gsiEntries (ioapicStart mem select) =
          initIoapicLoop chip image stale gsiEntries 0 n s := by
  by_cases hreach : KmapReaches image mem addr
  · refine Or.inr ⟨hreach, ?_⟩
    obtain rfl := hchip hreach.1
    have hmapped : ChipMapped chip image { ioapicStart mem select with
        mem := (kmap image.dir mem chip.base).1, ioapic := (kmap image.dir mem chip.base).2 } :=
      chipMapped_kmap hb hreach.1 haddr hreach rfl rfl
    have hread : ∀ (t : IoapicState) (reg : Nat), t.mem = (kmap image.dir mem chip.base).1 →
        t.ioapic = (kmap image.dir mem chip.base).2 → readIoapic chip image reg t =
          some (chip.register t.writes (reg % 256), { t with select := reg % 256 }) :=
      fun t reg hmem hptr => ChipMapped.read (hmapped.of_eq hmem hptr) reg
    have hbits : (BitVec.ofNat 8 n).toNat = n := by
      rw [BitVec.toNat_ofNat]
      omega
    have hver : chip.register [] (ioapicVerReg % 256) / 65536 % 256 + 1 = n := hn
    refine ⟨{ ioapicStart mem select with
      mem := (kmap image.dir mem chip.base).1, ioapic := (kmap image.dir mem chip.base).2
      select := ioapicVerReg % 256 }, rfl, rfl, hmapped.of_eq rfl rfl, ?_⟩
    simp only [initIoapic, ioapicStart, hread, Option.bind_eq_bind, Option.bind_some, hver, hbits]
  · refine Or.inl ⟨hreach, ?_⟩
    have hnone : Mm.translate (kmap image.dir mem addr).1 image.dirPaddr (kmap image.dir mem addr).2 =
        none := by
      cases htr : Mm.translate (kmap image.dir mem addr).1 image.dirPaddr
          (kmap image.dir mem addr).2 with
      | none => rfl
      | some q => exact absurd ((hb.kmap_reaches_iff haddr).1 ⟨q, htr⟩) hreach
    have hfault : ∀ (t : IoapicState) (reg : Nat), t.mem = (kmap image.dir mem addr).1 →
        t.ioapic = (kmap image.dir mem addr).2 → readIoapic chip image reg t = none := by
      intro t reg hmem hptr
      rw [← hmem, ← hptr] at hnone
      exact readIoapic_unmapped hnone reg
    simp only [initIoapic, ioapicStart, hfault, Option.bind_eq_bind, Option.bind_none]

/-- The overrides of a list that is stored in `gsi_entries`. -/
theorem honours_iff (hcells : RingHolds 256 madtStart.isoEntries isos gsiEntries)
    (hdistinct : (isos.map IoapicIso.gsi).Nodup) (hb : BootDirectory mem image)
    (haddr : addr < 4294967296) (hchip : addr ≠ 0 → chip.base = addr)
    (hn : chip.redirEntries = n) (hn' : n ≤ 255) :
    HonoursOverrides isos n
        (initIoapic chip image stale addr gsiEntries (ioapicStart mem select)) ↔
      KmapReaches image mem addr ∧ n ≤ 120 ∧ ∀ o ∈ isos, o.gsi < n →
        o.irqSrc.toNat ≤ 223 ∧ (o.irqSrc.toNat = o.gsi ∨ Reached gsiEntries o) := by
  rcases initIoapic_start stale gsiEntries select hb haddr hchip
    hn hn' with ⟨hno, hcall⟩ | ⟨hreach, s, hwrites, hcount, hmapped, hcall⟩
  · rw [hcall]
    refine iff_of_false ?_ fun h => hno h.1
    rintro ⟨s, hs, -⟩
    cases hs
  rw [hcall]
  by_cases hfew : n ≤ 120
  · have hstart : Programmed chip image gsiEntries 0 s := by
      refine ⟨hmapped, ?_, fun i hi => absurd hi (Nat.not_lt_zero i)⟩
      rw [hcount]
      exact Cursor.start
    obtain ⟨s', hloop, hdone⟩ := hstart.loop stale (n := n) (by omega)
    rw [Nat.zero_add] at hdone
    have hentry : ∀ i < n, (s'.vector i = some (wantedVector isos i) ↔ ∀ o ∈ isos, o.gsi = i →
        o.irqSrc.toNat ≤ 223 ∧ (o.irqSrc.toNat = i ∨ Reached gsiEntries o)) := by
      intro i hi
      obtain ⟨c, hcursor, hvector⟩ := hdone.vectors i hi
      rw [hvector, Option.some_inj]
      exact chosen_wanted_iff hcells hdistinct hcursor (by omega)
    constructor
    · rintro ⟨s₁, hs₁, hhonours⟩
      obtain rfl := Option.some.inj (hloop.symm.trans hs₁)
      refine ⟨hreach, hfew, fun o ho hgsi => ?_⟩
      exact (hentry o.gsi hgsi).1 (hhonours o.gsi hgsi) o ho rfl
    · rintro ⟨-, -, hall⟩
      refine ⟨s', hloop, fun i hi => (hentry i hi).2 fun o ho hgsi => ?_⟩
      rw [← hgsi]
      exact hall o ho (by omega)
  · refine iff_of_false ?_ fun hcond => hfew hcond.2.1
    rintro ⟨s₁, hs₁, hhonours⟩
    obtain ⟨s', hloop, hregs⟩ := hmapped.loop_regs (by
        rw [hwrites]
        exact fun w hw => absurd hw List.not_mem_nil) stale gsiEntries 0 n
    obtain rfl := Option.some.inj (hloop.symm.trans hs₁)
    have hlost := hhonours 120 (by omega)
    rw [vector_120 hregs] at hlost
    cases hlost

/-- The address of the IOAPIC has 32 bits. -/
theorem Parsed.ioapicAddr_lt {recs : List Record} {g : MadtState} (h : Parsed recs g) :
    g.ioapicAddr < 4294967296 := by
  rw [h.ioapicAddr, firstNonzero]
  cases hfind : ((ioapics recs).map Record.ioapicAddr).find? (· ≠ 0) with
  | none => exact Nat.zero_lt_succ _
  | some a =>
    obtain ⟨r, -, rfl⟩ := List.mem_map.1 (List.mem_of_find?_eq_some hfind)
    exact Mem.get32_lt _ _

/-- `init_ioapic` honours the overrides of the MADT exactly when the table has the address of
an IOAPIC, for which `kmap` has a page, the registers of all entries have 8-bit numbers, the
vectors of the overrides fit in 8 bits, and each override is reached in ascending order or
changes nothing. -/
theorem ioapic_honours_iff {m : Mem} {madt k : Nat} {recs : List Record} {g : MadtState}
    (h : MadtOf m madt recs) (hparse : parseMadt m madt k madtStart = some g)
    (hdistinct : (((overrides recs).map Record.iso).map IoapicIso.gsi).Nodup)
    (hb : BootDirectory mem image) (hchip : g.ioapicAddr ≠ 0 → chip.base = g.ioapicAddr)
    (hn : chip.redirEntries = n) (hn' : n ≤ 255) :
    HonoursOverrides ((overrides recs).map Record.iso) n
        (initIoapic chip image stale g.ioapicAddr g.isoEntries (ioapicStart mem select)) ↔
      KmapReaches image mem g.ioapicAddr ∧ n ≤ 120 ∧
        ∀ o ∈ (overrides recs).map Record.iso, o.gsi < n →
          o.irqSrc.toNat ≤ 223 ∧ (o.irqSrc.toNat = o.gsi ∨ Reached g.isoEntries o) :=
  honours_iff (h.result hparse).isoEntries hdistinct hb (h.result hparse).ioapicAddr_lt hchip hn hn'

/-- A chip of 24 entries at 0xFEC00000, whose registers read as the same value always. -/
def sampleChip : IoapicChip where
  base := 0xFEC00000
  aligned := by decide
  register := fun _ _ => 0x170011

def blankStale : Nat → RedirEntryLo × RedirEntryHi :=
  fun _ => (⟨0, 0, false, false, false, false, false, false, 0⟩, ⟨0, 0⟩)

/-- In the boot directory there is a slot for the chip. -/
theorem sampleChip_reached :
    KmapReaches sampleImage (setupKernelDirectory sampleImage fun _ => 0) 0xFEC00000 := by
  refine ⟨by decide, ?_⟩
  rw [if_neg (by decide), (freshDirectory_setup sampleImage get32_zero).findFreeSlot]
  exact Option.some_ne_none _

/-- Overrides that the table has in ascending order are all reached. -/
theorem reached_of_ascending (hcells : RingHolds 256 madtStart.isoEntries isos gsiEntries)
    (hfew : isos.length ≤ 256) (hasc : isos.Pairwise fun a b => a.gsi < b.gsi) (ho : o ∈ isos) :
    Reached gsiEntries o := by
  obtain ⟨j, hj, rfl⟩ := List.getElem_of_mem ho
  refine ⟨j, by omega, hcells.of_fits hfew hj, fun a ha => ?_⟩
  rw [hcells.of_fits hfew (by omega), hcells.of_fits hfew (j := a + 1) (by omega)]
  exact List.pairwise_iff_getElem.1 hasc a (a + 1) (by omega) (by omega) (Nat.lt_succ_self a)

/-- Three overrides in ascending order are honoured. -/
theorem ioapic_honours_iff_several : ∃ k g,
    parseMadt (madtTable sampleRecords) 0xC0400010 k madtStart = some g ∧
      HonoursOverrides ((overrides sampleRecords).map Record.iso) 24
        (initIoapic sampleChip sampleImage blankStale g.ioapicAddr g.isoEntries
          (ioapicStart (setupKernelDirectory sampleImage fun _ => 0) 0)) := by
  have h := madtTable_of sampleRecords (by decide)
  obtain ⟨g, hparse, hp⟩ := h.parsed
  have haddr : g.ioapicAddr = 0xFEC00000 := hp.ioapicAddr.trans (by decide)
  refine ⟨_, g, hparse, (ioapic_honours_iff h hparse (by decide)
    (bootDirectory_setup sampleImage get32_zero) (fun _ => haddr.symm) rfl (by decide)).2
      ⟨?_, by decide, fun o ho hgsi => ⟨?_, Or.inr ?_⟩⟩⟩
  · rw [haddr]
    exact sampleChip_reached
  · have hsmall : ∀ o ∈ (overrides sampleRecords).map Record.iso, o.irqSrc.toNat ≤ 223 := by decide
    exact hsmall o ho
  · exact reached_of_ascending hp.isoEntries (by decide) (by decide) ho

theorem recordSize_ioapic : recordSize 1 = some 12 := rfl

theorem recordSize_override : recordSize 2 = some 10 := rfl

/-- Interrupt 9 at input 9, and then interrupt 0 at input 2, at the IOAPIC at 0xFEC00000. -/
def descendingOverrides : List Record :=
  [⟨1, [2, 0, 0, 0, 0xC0, 0xFE, 0, 0, 0, 0], recordSize_ioapic⟩,
    ⟨2, [0, 9, 9, 0, 0, 0, 0, 0], recordSize_override⟩,
    ⟨2, [0, 0, 2, 0, 0, 0, 0, 0], recordSize_override⟩]

/-- The second of them is passed over: input 2 is programmed with vector 34. -/
theorem ioapic_misses_override : ∃ k g s,
    MadtOf (madtTable descendingOverrides) 0xC0400010 descendingOverrides ∧
    parseMadt (madtTable descendingOverrides) 0xC0400010 k madtStart = some g ∧
    (((overrides descendingOverrides).map Record.iso).map IoapicIso.gsi).Nodup ∧
    g.ioapicAddr = sampleChip.base ∧ sampleChip.redirEntries = 24 ∧
    initIoapic sampleChip sampleImage blankStale g.ioapicAddr g.isoEntries
      (ioapicStart (setupKernelDirectory sampleImage fun _ => 0) 0) = some s ∧
    s.vector 2 = some 34 ∧
    ¬ HonoursOverrides ((overrides descendingOverrides).map Record.iso) 24 (some s) := by
  have h := madtTable_of descendingOverrides (by decide)
  obtain ⟨g, hparse, hp⟩ := h.parsed
  have haddr : g.ioapicAddr = 0xFEC00000 := hp.ioapicAddr.trans (by decide)
  have hcell₀ := hp.isoEntries.of_fits (j := 0) (by decide) (by decide)
  have hcell₁ := hp.isoEntries.of_fits (j := 1) (by decide) (by decide)
  have hgsi₀ : (g.isoEntries 0).gsi = 9 := by
    rw [hcell₀]
    decide
  have hgsi₁ : (g.isoEntries 1).gsi = 2 := by
    rw [hcell₁]
    decide
  have hstart := initIoapic_start blankStale g.isoEntries 0 (bootDirectory_setup sampleImage get32_zero)
    hp.ioapicAddr_lt (fun _ => haddr.symm) (show sampleChip.redirEntries = 24 from rfl) (by decide)
  rw [haddr] at hstart
  obtain ⟨-, s₀, hwrites, hcount, hmapped, hcall⟩ := hstart.resolve_left fun hno =>
    hno.1 sampleChip_reached
  have hbegin : Programmed sampleChip sampleImage g.isoEntries 0 s₀ := by
    refine ⟨hmapped, ?_, fun i hi => absurd hi (Nat.not_lt_zero i)⟩
    rw [hcount]
    exact Cursor.start
  obtain ⟨s, hloop, hdone⟩ := hbegin.loop blankStale (n := 24) (by decide)
  obtain ⟨c, hcursor, hvector⟩ := hdone.vectors 2 (by decide)
  -- the cursor gets to no cell behind the first one
  have hpasses : ¬ 2 = (g.isoEntries c.toNat).gsi := by
    intro hmeets
    obtain ⟨-, hasc⟩ := hcursor.meets_iff.1 ⟨hmeets.symm, rfl⟩
    by_cases hc : c.toNat = 0
    · rw [hc, hgsi₀] at hmeets
      exact absurd hmeets (by decide)
    · have hstep := hasc 0 (by omega)
      rw [hgsi₀, hgsi₁] at hstep
      exact absurd hstep (by decide)
  have hplain : s.vector 2 = some 34 := by
    rw [hvector, chooseVector, if_neg hpasses]
    rfl
  refine ⟨_, g, s, h, hparse, by decide, haddr, rfl, ?_, hplain, ?_⟩
  · rw [haddr, hcall]
    exact hloop
  · rintro ⟨s', hs', hhonours⟩
    obtain rfl := Option.some.inj hs'
    have hwanted := hhonours 2 (by decide)
    rw [hplain] at hwanted
    exact absurd hwanted (by decide)

end Overrides

end BrownieOS.Core
