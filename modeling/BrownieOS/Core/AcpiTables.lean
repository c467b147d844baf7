import BrownieOS.Core.Acpi
import BrownieOS.Core.Rsdp
import BrownieOS.Mm.Vmm

/-!
# Finding and copying the ACPI tables

The firmware's tables are read through addresses from `kmap`, so every byte goes through
the page tables of the boot directory, and a page that is not mapped faults. The copies
lie on the kernel heap. The four finders differ in where their pointer comes from and in
the size they ask `kmalloc` for. What the processor keeps of old translations is left out.
-/
namespace BrownieOS.Core

open BrownieOS.Lib BrownieOS.Lib.Word32 BrownieOS.LibC BrownieOS.Mm

abbrev sizeofSdtHeader : Nat := 36
abbrev sizeofFadt : Nat := 244

def madtSig : Nat → Byte := literal "APIC"
def hpetSig : Nat → Byte := literal "HPET"
def fadtSig : Nat → Byte := literal "FACP"

/-! ## Reading through the page tables -/

/-- The byte at a virtual address, `none` on a page fault. -/
def vbyte (image : KernelImage) (m : Mem) (va : Nat) : Option Byte :=
  (Mm.translate m image.dirPaddr va).map m

/-- A 32-bit read at a virtual address. -/
def vget32 (image : KernelImage) (m : Mem) (va : Nat) : Option Nat := do
  let b₀ ← vbyte image m va
  let b₁ ← vbyte image m (wadd va 1)
  let b₂ ← vbyte image m (wadd va 2)
  let b₃ ← vbyte image m (wadd va 3)
  return b₀.toNat + 256 * b₁.toNat + 65536 * b₂.toNat + 16777216 * b₃.toNat

/-- The loop of `strncmp` with its first string at a virtual address, `n` bytes left. -/
def vstrncmp (image : KernelImage) (m : Mem) (va : Nat) (sig : Nat → Byte) :
    Nat → Nat → Option Int
  | _, 0 => some 0
  | i, n + 1 =>
    match vbyte image m (wadd va i) with
    | none => none
    | some c => if c < sig i then some (-1) else if sig i < c then some 1 else
      vstrncmp image m va sig (i + 1) n

/-- The stores of `memcpy` from a virtual address, with `n` bytes left. They end where a
byte of the source cannot be read. -/
def memcpyStores (image : KernelImage) (m : Mem) (dest src : Nat) : Nat → Nat → List (Nat × Byte)
  | _, 0 => []
  | i, n + 1 =>
    match vbyte image m (wadd src i) with
    | none => []
    | some c => (wadd dest i, c) :: memcpyStores image m dest src (i + 1) n

def applyStores (m : Mem) (stores : List (Nat × Byte)) : Mem :=
  stores.foldl (fun m store => Function.update m store.1 store.2) m

/-! ## `find_table` -/

/-- The loops of `find_table`, with `n` entries left from `i` on: the memory and the
address, or `none` on a page fault. -/
def findTableLoop (image : KernelImage) (sig : Nat → Byte) (sdtPtr : Nat → Nat) :
    Nat → Nat → Mem → Option (Mem × Nat)
  | _, 0, m => some (m, 0)
  | i, n + 1, m =>
    let entry := kmap image.dir m (sdtPtr i)
    match vstrncmp image entry.1 entry.2 sig 0 4 with
    | none => none
    | some r =>
      if r = 0 then some entry
      else findTableLoop image sig sdtPtr (i + 1) n (kunmap image.dir entry.1 entry.2)

/-- `rsdt->sdt_ptrs[i]`. -/
def rsdtEntry (s : Acpi) (i : Nat) : Nat :=
  s.heap.mem.get32 (wadd s.rsdt (sizeofSdtHeader + 4 * i))

/-- `xsdt->sdt_ptrs[i]`, cut to 32 bits by the call of `kmap`. -/
def xsdtEntry (s : Acpi) (i : Nat) : Nat :=
  s.heap.mem.get64 (wadd s.xsdt (sizeofSdtHeader + 8 * i)) % 4294967296

def findTable (image : KernelImage) (sig : Nat → Byte) (s : Acpi) : Option (Acpi × Nat) :=
  if s.acpiVersion < 2 then
    let entries := wsub (sdtLength s.heap.mem s.rsdt) sizeofSdtHeader / 4
    (findTableLoop image sig (rsdtEntry s) 0 entries s.mem).map fun r => ({ s with mem := r.1 }, r.2)
  else
    let entries := wsub (sdtLength s.heap.mem s.xsdt) sizeofSdtHeader / 8
    (findTableLoop image sig (xsdtEntry s) 0 entries s.mem).map fun r => ({ s with mem := r.1 }, r.2)

/-! ## The finders -/

/-- How a finder ends. It is unfinished when the amount of fuel is too small for a checksum
to end or to reach a page that is not mapped. -/
inductive Ending (σ : Type) where
  | done (s : σ)
  | pageFault
  | panicked
  | unfinished

def Ending.map {σ τ : Type} (g : σ → τ) : Ending σ → Ending τ
  | .done s => .done (g s)
  | .pageFault => .pageFault
  | .panicked => .panicked
  | .unfinished => .unfinished

/-- The loop of `acpi_sdt_checksum` on a mapped table, given up after `n` turns. -/
def vsdtChecksumLoop (image : KernelImage) (m : Mem) (header : Nat) :
    Nat → BitVec 8 → Nat → Nat → Ending Nat
  | 0, _, _, _ => .unfinished
  | n + 1, i, byte, sum =>
    match vget32 image m (wadd header 4) with
    | none => .pageFault
    | some length =>
      if i.toNat < length then
        match vbyte image m byte with
        | none => .pageFault
        | some c => vsdtChecksumLoop image m header n (i + 1) (wadd byte 1) (wadd sum c.toNat)
      else .done sum

/-- `acpi_sdt_checksum` on a mapped table, given up after `n` turns. -/
def vsdtChecksum (image : KernelImage) (m : Mem) (header n : Nat) : Ending Bool :=
  (vsdtChecksumLoop image m header n 0 header 0).map fun sum => if sum % 0x100 = 0 then true else false

/-- On a table of fewer than 256 bytes that can all be read, it is the checksum of these. -/
theorem vsdtChecksumLoop_of_vbyte {image : KernelImage} {m m' : Mem} {header : Nat}
    (hlen : sdtLength m' header < 256)
    (hword : vget32 image m (wadd header 4) = some (sdtLength m' header))
    (hbytes : ∀ k < sdtLength m' header, vbyte image m (wadd header k) = some (m' (wadd header k)))
    (n : Nat) {k : Nat} (hk : k ≤ sdtLength m' header) (sum : Nat) :
    vsdtChecksumLoop image m header n (BitVec.ofNat 8 k) (wadd header k) sum =
      (sdtChecksumLoop m' header n (BitVec.ofNat 8 k) (wadd header k) sum).elim .unfinished .done := by
  induction n generalizing k sum with
  | zero => rfl
  | succ n ih =>
    have hcounter := toNat_counter (show k < 256 by omega)
    rw [vsdtChecksumLoop, sdtChecksumLoop, hword, hcounter]
    dsimp only
    by_cases hlt : k < sdtLength m' header
    · have hnext : BitVec.ofNat 8 k + 1 = BitVec.ofNat 8 (k + 1) := (BitVec.ofNat_add k 1).symm
      have hbyte : wadd (wadd header k) 1 = wadd header (k + 1) := by
        simp only [wadd]
        omega
      rw [if_pos hlt, if_pos hlt, hbytes k hlt, hnext, hbyte]
      exact ih hlt _
    · rw [if_neg hlt, if_neg hlt]
      rfl

/-- What the finders share, from the mapped table on: the copy's address. `size` is what
they ask `kmalloc` for a table of a given length. A NULL copy is stored through or, of an
empty table, read through by the second checksum. -/
def takeTable (image : KernelImage) (size : Nat → Nat) (fuel ptr : Nat) (s : Acpi) :
    Ending (Acpi × Nat) :=
  match vget32 image s.mem (wadd ptr 4) with
  | none => .pageFault
  | some length =>
    let block := kmalloc s.heap (size length)
    let copy := block.2
    let stores := memcpyStores image s.mem copy ptr 0 length
    if stores.length < length ∨ copy = 0 then .pageFault
    else
      let heap := { block.1 with mem := applyStores block.1.mem stores }
      match vsdtChecksum image s.mem ptr fuel with
      | .pageFault => .pageFault
      | .panicked => .panicked
      | .unfinished => .unfinished
      | .done false => .panicked
      | .done true =>
        match acpiSdtChecksum heap.mem copy fuel with
        | none => .unfinished
        | some false => .panicked
        | some true => .done ({ s with heap := heap, mem := kunmap image.dir s.mem ptr }, copy)

/-- `rsdp->rsdt_addr`. -/
def rsdtAddr (s : Acpi) : Nat := s.heap.mem.get32 (wadd s.rsdp 16)

def findRsdtXsdt (image : KernelImage) (fuel : Nat) (s : Acpi) : Ending Acpi :=
  if s.acpiVersion < 2 then
    let mapped := kmap image.dir s.mem (rsdtAddr s)
    (takeTable image id fuel mapped.2 { s with mem := mapped.1, rsdtPtr := mapped.2 }).map fun r =>
      { r.1 with rsdt := r.2 }
  else .panicked

def findMadt (image : KernelImage) (fuel : Nat) (s : Acpi) : Ending Acpi :=
  match findTable image madtSig s with
  | none => .pageFault
  | some (s, ptr) =>
    (takeTable image id fuel ptr { s with madtPtr := ptr }).map fun r => { r.1 with madt := r.2 }

def findHpet (image : KernelImage) (fuel : Nat) (s : Acpi) : Ending Acpi :=
  match findTable image hpetSig s with
  | none => .pageFault
  | some (s, ptr) =>
    (takeTable image id fuel ptr { s with hpetPtr := ptr }).map fun r => { r.1 with hpet := r.2 }

def findFadt (image : KernelImage) (fuel : Nat) (s : Acpi) : Ending Acpi :=
  match findTable image fadtSig s with
  | none => .pageFault
  | some (s, ptr) =>
    (takeTable image (fun _ => sizeofFadt) fuel ptr { s with fadtPtr := ptr }).map fun r =>
      { r.1 with fadt := r.2 }

/-! ## What the finders share -/

inductive Finder where
  | rsdtXsdt
  | madt
  | hpet
  | fadt
  deriving DecidableEq

def Finder.find (image : KernelImage) (fuel : Nat) (s : Acpi) : Finder → Ending Acpi
  | .rsdtXsdt => findRsdtXsdt image fuel s
  | .madt => findMadt image fuel s
  | .hpet => findHpet image fuel s
  | .fadt => findFadt image fuel s

/-- What the finder asks `kmalloc` for, given the length of the table. -/
def Finder.size : Finder → Nat → Nat
  | .fadt => fun _ => sizeofFadt
  | _ => id

/-- The state and the pointer with which the finder turns to its table. -/
def Finder.source (image : KernelImage) (s : Acpi) : Finder → Option (Acpi × Nat)
  | .rsdtXsdt =>
    if s.acpiVersion < 2 then
      let mapped := kmap image.dir s.mem (rsdtAddr s)
      some ({ s with mem := mapped.1, rsdtPtr := mapped.2 }, mapped.2)
    else none
  | .madt => (findTable image madtSig s).map fun r => ({ r.1 with madtPtr := r.2 }, r.2)
  | .hpet => (findTable image hpetSig s).map fun r => ({ r.1 with hpetPtr := r.2 }, r.2)
  | .fadt => (findTable image fadtSig s).map fun r => ({ r.1 with fadtPtr := r.2 }, r.2)

/-- How the finder ends without a table to turn to. -/
def Finder.noSource : Finder → Ending Acpi
  | .rsdtXsdt => .panicked
  | _ => .pageFault

/-- The finder keeps the address of its copy. -/
def Finder.keep : Finder → Acpi × Nat → Acpi
  | .rsdtXsdt => fun r => { r.1 with rsdt := r.2 }
  | .madt => fun r => { r.1 with madt := r.2 }
  | .hpet => fun r => { r.1 with hpet := r.2 }
  | .fadt => fun r => { r.1 with fadt := r.2 }

/-- The finders are one function of their source, their size and where they keep the copy. -/
theorem Finder.find_eq (f : Finder) (image : KernelImage) (fuel : Nat) (s : Acpi) :
    f.find image fuel s =
      match f.source image s with
      | none => f.noSource
      | some (s', ptr) => (takeTable image f.size fuel ptr s').map f.keep := by
  cases f with
  | rsdtXsdt =>
    rw [Finder.find, Finder.source, findRsdtXsdt]
    split
    · rfl
    · rfl
  | madt =>
    rw [Finder.find, Finder.source, findMadt]
    cases findTable image madtSig s with
    | none => rfl
    | some r => rfl
  | hpet =>
    rw [Finder.find, Finder.source, findHpet]
    cases findTable image hpetSig s with
    | none => rfl
    | some r => rfl
  | fadt =>
    rw [Finder.find, Finder.source, findFadt]
    cases findTable image fadtSig s with
    | none => rfl
    | some r => rfl

/-- `find_table` maps and unmaps, and leaves everything else. -/
theorem findTable_heap {image : KernelImage} {sig : Nat → Byte} {s : Acpi} {r : Acpi × Nat}
    (h : findTable image sig s = some r) : r.1.heap = s.heap := by
  unfold findTable at h
  split at h
  · obtain ⟨q, -, rfl⟩ := Option.map_eq_some_iff.1 h
    rfl
  · obtain ⟨q, -, rfl⟩ := Option.map_eq_some_iff.1 h
    rfl

theorem Finder.source_heap {f : Finder} {image : KernelImage} {s s' : Acpi} {ptr : Nat}
    (h : f.source image s = some (s', ptr)) : s'.heap = s.heap := by
  cases f with
  | rsdtXsdt =>
    rw [Finder.source] at h
    split at h
    · obtain ⟨rfl, -⟩ := Prod.mk.inj (Option.some.inj h)
      rfl
    · cases h
  | madt =>
    obtain ⟨r, hr, he⟩ := Option.map_eq_some_iff.1 h
    obtain ⟨rfl, -⟩ := Prod.mk.inj he
    exact findTable_heap (r := r) hr
  | hpet =>
    obtain ⟨r, hr, he⟩ := Option.map_eq_some_iff.1 h
    obtain ⟨rfl, -⟩ := Prod.mk.inj he
    exact findTable_heap (r := r) hr
  | fadt =>
    obtain ⟨r, hr, he⟩ := Option.map_eq_some_iff.1 h
    obtain ⟨rfl, -⟩ := Prod.mk.inj he
    exact findTable_heap (r := r) hr

/-- The checks `init_hpet` makes first, as the message of its panic. -/
def initHpetChecks (s : Acpi) : Option String :=
  if s.hpet = 0 then some "hpet not found"
  else if s.heap.mem (wadd s.hpet 40) ≠ 0 then some "UNSUPPORTED HPET ADDRESS SPACE ID"
  else none

end BrownieOS.Core
