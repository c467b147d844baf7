import BrownieOS.Lib.ByteMemory
import BrownieOS.Lib.Word32
import Mathlib.Algebra.BigOperators.Group.Finset.Basic

/-!
# The table checksum of `core/acpi.c`

`acpi_sdt_checksum` adds up the bytes of a table. Its counter has 8 bits and is compared
with a length of 32, so the loop leaves only tables of fewer than 256 bytes.
-/
namespace BrownieOS.Core

open BrownieOS.Lib BrownieOS.Lib.Word32

/-- `header->length`. -/
def sdtLength (m : Mem) (header : Nat) : Nat := m.get32 (header + 4)

/-- The loop of `acpi_sdt_checksum`, given up after `n` turns. The length is read at every
turn. -/
def sdtChecksumLoop (m : Mem) (header : Nat) : Nat → BitVec 8 → Nat → Nat → Option Nat
  | 0, _, _, _ => none
  | n + 1, i, byte, sum =>
    if i.toNat < sdtLength m header then
      sdtChecksumLoop m header n (i + 1) (wadd byte 1) (wadd sum (m byte).toNat)
    else some sum

/-- `acpi_sdt_checksum`, given up after `n` turns. -/
def acpiSdtChecksum (m : Mem) (header n : Nat) : Option Bool :=
  (sdtChecksumLoop m header n 0 header 0).map fun sum => if sum % 0x100 = 0 then true else false

/-- The sum of the first `n` bytes of the table. -/
def tableSum (m : Mem) (header n : Nat) : Nat := ∑ k ∈ Finset.range n, (m (wadd header k)).toNat

/-- The call ends, and answers whether the bytes of the table sum to 0 modulo 256. -/
def ChecksumDecides (m : Mem) (header : Nat) : Prop :=
  ∃ n valid, acpiSdtChecksum m header n = some valid ∧
    (valid = true ↔ tableSum m header (sdtLength m header) % 256 = 0)

variable {m : Mem} {header k n : Nat}

theorem toNat_counter (hk : k < 256) : (BitVec.ofNat 8 k).toNat = k := by
  rw [BitVec.toNat_ofNat]
  omega

/-- Short of the length, `k` turns in, `n` more turns finish the loop. -/
theorem sdtChecksumLoop_short (hlen : sdtLength m header < 256) (hk : k + n = sdtLength m header) :
    sdtChecksumLoop m header (n + 1) (BitVec.ofNat 8 k) (wadd header k)
      (tableSum m header k % 4294967296) =
        some (tableSum m header (sdtLength m header) % 4294967296) := by
  induction n generalizing k with
  | zero =>
    have hcounter := toNat_counter (show k < 256 by omega)
    obtain rfl : k = sdtLength m header := hk
    rw [sdtChecksumLoop, hcounter, if_neg (Nat.lt_irrefl _)]
  | succ n ih =>
    have hcounter := toNat_counter (show k < 256 by omega)
    have hnext : BitVec.ofNat 8 k + 1 = BitVec.ofNat 8 (k + 1) := (BitVec.ofNat_add k 1).symm
    have hbyte : wadd (wadd header k) 1 = wadd header (k + 1) := by
      simp only [wadd]
      omega
    have hsum : wadd (tableSum m header k % 4294967296) (m (wadd header k)).toNat =
        tableSum m header (k + 1) % 4294967296 := by
      rw [tableSum, tableSum, Finset.sum_range_succ]
      simp only [wadd]
      omega
    rw [sdtChecksumLoop, hcounter, if_pos (by omega), hnext, hbyte, hsum]
    exact ih (by omega)

/-- The counter never reaches a length of 256 or more. -/
theorem sdtChecksumLoop_long (hlen : 256 ≤ sdtLength m header) :
    ∀ n i byte sum, sdtChecksumLoop m header n i byte sum = none := by
  intro n
  induction n with
  | zero => exact fun _ _ _ => rfl
  | succ n ih =>
    intro i byte sum
    have hi := i.isLt
    rw [sdtChecksumLoop, if_pos (by omega)]
    exact ih _ _ _

theorem not_checksumDecides (hlen : 256 ≤ sdtLength m header) : ¬ ChecksumDecides m header := by
  rintro ⟨n, valid, hcall, -⟩
  rw [acpiSdtChecksum, sdtChecksumLoop_long hlen] at hcall
  cases hcall

/-- The checksum of a table is decided exactly when its length is below 256. -/
theorem checksum_decides_iff (hh : header < 4294967296) :
    ChecksumDecides m header ↔ sdtLength m header < 256 := by
  constructor
  · intro h
    by_contra hlong
    exact not_checksumDecides (by omega) h
  · intro hlen
    have hloop := sdtChecksumLoop_short hlen (Nat.zero_add (sdtLength m header))
    have hstart : wadd header 0 = header := wadd_of_lt hh
    have hnone : tableSum m header 0 % 4294967296 = 0 := rfl
    rw [hstart, hnone] at hloop
    have hmod : tableSum m header (sdtLength m header) % 4294967296 % 0x100 =
        tableSum m header (sdtLength m header) % 256 := by omega
    refine ⟨sdtLength m header + 1, _, congrArg (Option.map _) hloop, ?_⟩
    simp only [hmod]
    simp

/-- A table at `header` of zeros but for its length. -/
def blankTable (header length : Nat) : Mem := Mem.set32 (fun _ => 0) (header + 4) length

theorem checksum_decides_36 :
    ChecksumDecides (blankTable 0xF8000000 36) 0xF8000000 :=
  (checksum_decides_iff (by decide)).mpr (by decide)

/-- On a table of 256 bytes the loop never ends. -/
theorem checksum_spins_256 :
    (∀ n, acpiSdtChecksum (blankTable 0xF8000000 256) 0xF8000000 n = none) ∧
      ¬ ChecksumDecides (blankTable 0xF8000000 256) 0xF8000000 := by
  have hlen : 256 ≤ sdtLength (blankTable 0xF8000000 256) 0xF8000000 := by decide
  refine ⟨fun n => ?_, not_checksumDecides hlen⟩
  rw [acpiSdtChecksum, sdtChecksumLoop_long hlen]
  rfl

end BrownieOS.Core
