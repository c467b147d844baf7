import BrownieOS.LibC.Strings
import BrownieOS.Lib.Loop
import BrownieOS.Mm.Kmm
import Mathlib.Algebra.BigOperators.Group.Finset.Basic

/-!
# The search for the RSDP

`find_rsdp` looks at every sixteenth address of the BIOS area. A candidate is copied to the
heap before its checksum is tried; a rejected one leaves a blank copy and a null pointer. The
heap lies outside the area.
-/
namespace BrownieOS.Core

open BrownieOS.Lib BrownieOS.Lib.Word32 BrownieOS.LibC BrownieOS.Mm

abbrev sizeofRsdp : Nat := 36

def rsdpSig : Nat → Byte := literal "RSD PTR "

/-- The physical memory, the kernel heap and the globals of `acpi.c`. The pointers
`.._ptr` are to the firmware's tables, the others to the copies. -/
structure Acpi where
  mem : Mem
  heap : Heap
  acpiVersion : Nat := 0
  rsdpPtr : Nat := 0
  rsdp : Nat := 0
  rsdtPtr : Nat := 0
  rsdt : Nat := 0
  xsdt : Nat := 0
  madtPtr : Nat := 0
  madt : Nat := 0
  hpetPtr : Nat := 0
  hpet : Nat := 0
  fadtPtr : Nat := 0
  fadt : Nat := 0

/-- `n` turns of the loops of `rsdp_checksum`. The sum has 8 bits. -/
def rsdpSumLoop (m : Mem) : Nat → Nat → Byte → Byte
  | 0, _, sum => sum
  | n + 1, byte, sum => rsdpSumLoop m n (wadd byte 1) (sum + m (kv2p byte))

def rsdpChecksum (s : Acpi) : Bool :=
  if s.acpiVersion < 2 then
    if (rsdpSumLoop s.mem 20 s.rsdpPtr 0).toNat % 0x100 = 0 then true else false
  else
    if (rsdpSumLoop s.mem 36 s.rsdpPtr 0).toNat % 0x100 = 0 then true else false

/-- The 36 bytes at `ptr`. -/
def rsdpBytes (m : Mem) (ptr : Nat) : List Byte :=
  (List.range sizeofRsdp).map fun k => m (kv2p (wadd ptr k))

/-- The `if` of the loop: the signature stands at `ptr`. -/
def rsdpCandidate (m : Mem) (ptr : Nat) : Bool :=
  strncmp (fun k => m (kv2p (wadd ptr k))) rsdpSig 8 == 0

/-- One turn of the loop, on the globals and `ptr`. A store through NULL is undefined. -/
def rsdpTurn (s : Acpi × Nat) : Turn (Acpi × Nat) :=
  let ptr := s.2
  if rsdpCandidate s.1.mem ptr then
    let block := kmalloc s.1.heap sizeofRsdp
    let rsdp := block.2
    if rsdp = 0 then .undefined
    else
      let copied := { block.1 with mem := block.1.mem.writeAt rsdp (rsdpBytes s.1.mem ptr) }
      let tried : Acpi :=
        { s.1 with
          rsdpPtr := ptr
          rsdp := rsdp
          heap := copied
          acpiVersion := (copied.mem (rsdp + 15)).toNat }
      if rsdpChecksum tried = false then
        .next ({ tried with
          rsdpPtr := 0
          heap := { copied with mem := copied.mem.fill rsdp sizeofRsdp 0 } }, wadd ptr 16)
      else .leave (tried, ptr)
  else .next (s.1, wadd ptr 16)

/-- `ptr < 0xC00FFFFF`. -/
def rsdpMore (s : Acpi × Nat) : Bool := decide (s.2 < 0xC00FFFFF)

def findRsdp (fuel : Nat) (s : Acpi) : Ended Acpi :=
  (loop rsdpMore rsdpTurn fuel (s, 0xC00E0000)).map Prod.fst

/-! ## What is searched for -/

/-- A physical address the search looks at. -/
def BiosSlot (a : Nat) : Prop := a % 16 = 0 ∧ 0xE0000 ≤ a ∧ a ≤ 0xFFFFF

/-- An RSDP stands at the physical address `a`. -/
structure ValidRsdp (m : Mem) (a : Nat) : Prop where
  signature : ∀ k < 8, m (a + k) = rsdpSig k
  checksum : (∑ k ∈ Finset.range (if (m (a + 15)).toNat < 2 then 20 else 36), (m (a + k)).toNat) %
    256 = 0

/-- How the search ends: at the lowest RSDP, with its copy and its revision, or behind the
area with a null pointer. -/
inductive RsdpFound (m : Mem) : Ended Acpi → Prop
  | found {a : Nat} {s : Acpi} : BiosSlot a → ValidRsdp m a →
      (∀ b, BiosSlot b → b < a → ¬ ValidRsdp m b) → s.rsdpPtr = kp2v a →
      s.heap.mem.HoldsAt s.rsdp ((List.range 36).map fun k => m (a + k)) →
      s.acpiVersion = (m (a + 15)).toNat → RsdpFound m (.left s)
  | missing {s : Acpi} : (∀ a, BiosSlot a → ¬ ValidRsdp m a) → s.rsdpPtr = 0 →
      RsdpFound m (.done s)

/-- Every `kmalloc` that the search makes gives a block. -/
def KmallocSucceeds (s : Acpi) : Prop :=
  ∀ t, Visits rsdpMore rsdpTurn (s, 0xC00E0000) t → rsdpMore t = true →
    rsdpCandidate t.1.mem t.2 = true → (kmalloc t.1.heap sizeofRsdp).2 ≠ 0

/-! ## One candidate -/

section Candidate

variable {m : Mem} {a k n : Nat} {s : Acpi}

/-- The pointer to the `n`th slot. -/
def slotPtr (n : Nat) : Nat := 0xC00E0000 + 16 * n

theorem kv2p_slotPtr (hn : n < 8192) (hk : k < 36) :
    kv2p (wadd (slotPtr n) k) = 0xE0000 + 16 * n + k := by
  simp only [kv2p, wadd, wsub, slotPtr]
  omega

theorem rsdpSumLoop_eq (hn : n < 8192) (hk : k + a ≤ 36) :
    ∀ sum, (rsdpSumLoop m k (wadd (slotPtr n) a) sum).toNat =
      (sum.toNat + ∑ j ∈ Finset.range k, (m (0xE0000 + 16 * n + a + j)).toNat) % 256 := by
  induction k generalizing a with
  | zero =>
    intro sum
    have := sum.isLt
    rw [rsdpSumLoop, Finset.sum_range_zero]
    omega
  | succ k ih =>
    intro sum
    have hbyte : wadd (wadd (slotPtr n) a) 1 = wadd (slotPtr n) (a + 1) := by
      simp only [wadd]
      omega
    have hshift : ∀ j, 0xE0000 + 16 * n + (a + 1) + j = 0xE0000 + 16 * n + a + (j + 1) := by
      omega
    rw [rsdpSumLoop, hbyte, ih (by omega), kv2p_slotPtr hn (by omega), BitVec.toNat_add,
      Finset.sum_range_succ']
    simp only [hshift, Nat.add_zero]
    omega

theorem rsdpCandidate_iff (hn : n < 8192) :
    rsdpCandidate m (slotPtr n) = true ↔ ∀ k < 8, m (0xE0000 + 16 * n + k) = rsdpSig k := by
  rw [rsdpCandidate, beq_iff_eq, strncmp_eq_zero_iff]
  constructor
  · intro h k hk
    rw [← h k hk, kv2p_slotPtr hn (by omega)]
  · intro h k hk
    rw [kv2p_slotPtr hn (by omega)]
    exact h k hk

/-- The checksum of a candidate, once its revision is the version. -/
theorem rsdpChecksum_iff (hn : n < 8192) (hptr : s.rsdpPtr = slotPtr n)
    (hv : s.acpiVersion = (s.mem (0xE0000 + 16 * n + 15)).toNat) :
    rsdpChecksum s = true ↔
      (∑ k ∈ Finset.range (if (s.mem (0xE0000 + 16 * n + 15)).toNat < 2 then 20 else 36),
        (s.mem (0xE0000 + 16 * n + k)).toNat) % 256 = 0 := by
  have hstart : slotPtr n = wadd (slotPtr n) 0 := by
    simp only [wadd, slotPtr]
    omega
  have hzero : (0 : Byte).toNat = 0 := rfl
  rw [rsdpChecksum, hv, hptr, hstart]
  split
  · rw [rsdpSumLoop_eq hn (by omega), hzero, Nat.zero_add, Nat.add_zero, Nat.mod_mod]
    simp
  · rw [rsdpSumLoop_eq hn (by omega), hzero, Nat.zero_add, Nat.add_zero, Nat.mod_mod]
    simp

theorem rsdpBytes_slot (hn : n < 8192) :
    rsdpBytes m (slotPtr n) = (List.range 36).map fun k => m (0xE0000 + 16 * n + k) := by
  unfold rsdpBytes
  refine List.map_congr_left fun k hk => ?_
  rw [kv2p_slotPtr hn (List.mem_range.1 hk)]

theorem biosSlot_iff : BiosSlot a ↔ ∃ n < 8192, a = 0xE0000 + 16 * n := by
  constructor
  · rintro ⟨h, hlo, hhi⟩
    exact ⟨(a - 0xE0000) / 16, by omega, by omega⟩
  · rintro ⟨n, hn, rfl⟩
    exact ⟨by omega, by omega, by omega⟩

theorem slotPtr_eq (hn : n < 8192) : slotPtr n = kp2v (0xE0000 + 16 * n) := by
  simp only [slotPtr, kp2v, wadd]
  omega

end Candidate

/-! ## The search -/

/-- The head of turn `n`: nothing is found yet, and no candidate has left a pointer. -/
structure Searching (m : Mem) (n : Nat) (s : Acpi × Nat) : Prop where
  ptr : s.2 = slotPtr n
  mem : s.1.mem = m
  null : s.1.rsdpPtr = 0
  missed : ∀ k < n, ¬ ValidRsdp m (0xE0000 + 16 * k)

section Search

variable {m : Mem} {n : Nat} {s t : Acpi × Nat}

theorem Searching.more (h : Searching m n s) : rsdpMore s = true ↔ n < 8192 := by
  rw [rsdpMore, h.ptr, decide_eq_true_iff]
  simp only [slotPtr]
  omega

theorem Searching.next {t : Acpi × Nat} (h : Searching m n s) (hn : n < 8192)
    (hptr : t.2 = wadd (slotPtr n) 16) (hmem : t.1.mem = m) (hnull : t.1.rsdpPtr = 0)
    (hmiss : ¬ ValidRsdp m (0xE0000 + 16 * n)) : Searching m (n + 1) t := by
  refine ⟨?_, hmem, hnull, fun k hk => ?_⟩
  · rw [hptr]
    simp only [slotPtr, wadd]
    omega
  · by_cases he : k = n
    · rw [he]
      exact hmiss
    · exact h.missed k (by omega)

/-- One turn goes on past a slot without an RSDP or leaves at the lowest one. -/
theorem Searching.turn (h : Searching m n s) (hn : n < 8192)
    (hk : rsdpCandidate s.1.mem s.2 = true → (kmalloc s.1.heap sizeofRsdp).2 ≠ 0) :
    (∃ t, rsdpTurn s = .next t ∧ Searching m (n + 1) t) ∨
      ∃ t, rsdpTurn s = .leave t ∧ RsdpFound m (.left t.1) := by
  rw [h.mem, h.ptr] at hk
  unfold rsdpTurn
  dsimp only
  rw [h.mem, h.ptr]
  by_cases hc : rsdpCandidate m (slotPtr n) = true
  · rw [if_pos hc, if_neg (hk hc)]
    generalize kmalloc s.1.heap sizeofRsdp = block
    have hheld := Mem.holdsAt_writeAt block.1.mem block.2 (rsdpBytes m (slotPtr n))
    rw [rsdpBytes_slot hn] at hheld ⊢
    generalize block.1.mem.writeAt block.2 _ = copy at hheld ⊢
    have hrev := Mem.holdsAt_map_range.1 hheld 15 (by decide)
    have hsum := rsdpChecksum_iff (s := { s.1 with
      mem := m
      rsdpPtr := slotPtr n
      rsdp := block.2
      heap := { block.1 with mem := copy }
      acpiVersion := (copy (block.2 + 15)).toNat }) hn rfl (congrArg BitVec.toNat hrev)
    split
    · rename_i hbad
      refine Or.inl ⟨_, rfl, h.next hn rfl rfl rfl fun hv => ?_⟩
      rw [hsum.2 hv.checksum] at hbad
      cases hbad
    · rename_i hgood
      have hvalid : ValidRsdp m (0xE0000 + 16 * n) :=
        ⟨(rsdpCandidate_iff hn).1 hc, hsum.1 (Bool.eq_true_of_not_eq_false hgood)⟩
      refine Or.inr ⟨_, rfl, .found (biosSlot_iff.2 ⟨n, hn, rfl⟩) hvalid ?_ (slotPtr_eq hn) ?_
        (congrArg BitVec.toNat hrev)⟩
      · intro b hb hlt
        obtain ⟨k, -, rfl⟩ := biosSlot_iff.1 hb
        exact h.missed k (by omega)
      · exact hheld
  · rw [if_neg hc]
    exact Or.inl ⟨_, rfl, h.next hn rfl h.mem h.null fun hv =>
      hc ((rsdpCandidate_iff hn).2 hv.signature)⟩

/-- From the head of any turn the rest of the search ends as it should. -/
theorem Searching.run {left fuel : Nat} (hleft : n + left = 8192) (hfuel : left < fuel)
    (h : Searching m n s)
    (hk : ∀ t, Visits rsdpMore rsdpTurn s t → rsdpMore t = true →
      rsdpCandidate t.1.mem t.2 = true → (kmalloc t.1.heap sizeofRsdp).2 ≠ 0) :
    RsdpFound m ((loop rsdpMore rsdpTurn fuel s).map Prod.fst) := by
  obtain ⟨fuel, rfl⟩ := Nat.exists_eq_succ_of_ne_zero (Nat.ne_zero_of_lt hfuel)
  induction left generalizing n s fuel with
  | zero =>
    have hstop : rsdpMore s = false := by
      rw [← Bool.not_eq_true, h.more]
      omega
    rw [loop_of_not_more hstop]
    refine .missing (fun a ha => ?_) h.null
    obtain ⟨k, hk', rfl⟩ := biosSlot_iff.1 ha
    exact h.missed k (by omega)
  | succ left ih =>
    have hn : n < 8192 := by omega
    have hmore : rsdpMore s = true := h.more.2 hn
    rcases h.turn hn (hk s .here hmore) with ⟨t, ht, hnext⟩ | ⟨t, ht, hfound⟩
    · obtain ⟨fuel, rfl⟩ := Nat.exists_eq_succ_of_ne_zero (n := fuel) (by omega)
      rw [loop_of_next hmore ht]
      exact ih (by omega) hnext (fun t' hv => hk t' (.next hmore ht hv)) fuel (by omega)
    · rw [loop, if_pos hmore, ht]
      exact hfound

end Search

/-- Given blocks for the copies, `find_rsdp` ends at the lowest RSDP of the area with its
copy and its revision, whatever stands before it, or with a null pointer. -/
theorem findRsdp_finds {s : Acpi} (hnull : s.rsdpPtr = 0) (hk : KmallocSucceeds s) {fuel : Nat}
    (hfuel : 8192 < fuel) : RsdpFound s.mem (findRsdp fuel s) :=
  Searching.run (n := 0) (by omega) hfuel
    ⟨rfl, rfl, hnull, fun _ h => absurd h (Nat.not_lt_zero _)⟩ hk

/-- Two candidates behind one another, the first with a wrong checksum. -/
def sampleBios : Mem :=
  Mem.writeAt (Mem.writeAt (fun _ => 0) 0xE0000 ("RSD PTR ".toList.map ch)) 0xE0010
    ("RSD PTR ".toList.map ch ++ [0xE1])

def sampleAcpi : Acpi where
  mem := sampleBios
  heap := kheapInitAt (fun _ => 0) 0xC1000000

/-- Where a turn goes on. -/
def nextOf : Turn (Acpi × Nat) → Option (Acpi × Nat)
  | .next t => some t
  | _ => none

theorem sampleAcpi_kmalloc : KmallocSucceeds sampleAcpi := by
  have first : (kmalloc sampleAcpi.heap sizeofRsdp).2 ≠ 0 := by decide +kernel
  have second : ∀ t ∈ nextOf (rsdpTurn (sampleAcpi, 0xC00E0000)),
      (kmalloc t.1.heap sizeofRsdp).2 ≠ 0 ∧ (nextOf (rsdpTurn t)).isNone := by
    decide +kernel
  rintro t hv - -
  cases hv with
  | here => exact first
  | next hm ht hv =>
    obtain ⟨hblock, hend⟩ := second _ (by rw [ht]; rfl)
    cases hv with
    | here => exact hblock
    | next hm' ht' hv' =>
      rw [ht'] at hend
      cases hend

/-- Behind a candidate with a wrong checksum the next one is found. -/
theorem findRsdp_second : RsdpFound sampleBios (findRsdp 8193 sampleAcpi) :=
  findRsdp_finds (s := sampleAcpi) rfl sampleAcpi_kmalloc (by decide)

end BrownieOS.Core
