import BrownieOS.Mm.Vmm

/-!
# Kernel accesses by virtual address, and `clone_page_dir` of `mm/paging.c`

The identity window is reached by arithmetic, everything else through the page walk
from the current `CR3`. `memset` and `memcpy` are the byte loops of the C library.
A computation is `none` when it faults or when a frame scan does not return. What a
translation cache may answer instead is not part of this model.
-/
namespace BrownieOS.Mm

open BrownieOS.Lib BrownieOS.Lib.Word32

/-- Physical memory and the frame bitmap, and beside them whether an allocation or a
mapping of the run so far has failed. -/
structure Pmm where
  mem : Mem
  framemap : FrameMap
  failed : Bool

/-- `alloc_pages` on the state. -/
def Pmm.allocPages (s : Pmm) (flags : PmmFlags) (count : Nat) : Option (Pmm × Nat) :=
  match Mm.allocPages s.framemap flags count with
  | none => none
  | some (base, framemap) =>
    some ({ s with framemap := framemap, failed := s.failed || base == 0 }, base)

/-- `kmap` on the state. -/
def Pmm.kmap (s : Pmm) (kdir paddr : Nat) : Pmm × Nat :=
  let mapped := Mm.kmap kdir s.mem paddr
  ({ s with mem := mapped.1, failed := s.failed || mapped.2 == 0 }, mapped.2)

/-- The kernel reaches the address by arithmetic. -/
def InIdentityWindow (va : Nat) : Prop := 0xC0000000 ≤ va ∧ va < 0xF8000000

instance (va : Nat) : Decidable (InIdentityWindow va) := inferInstanceAs (Decidable (_ ∧ _))

/-- Where a read at `va` goes. -/
def readPaddr (m : Mem) (cr3 va : Nat) : Option Nat :=
  if InIdentityWindow va then some (kv2p va) else translate m cr3 va

/-- Where a write at `va` goes. -/
def writePaddr (m : Mem) (cr3 va : Nat) : Option Nat :=
  if InIdentityWindow va then some (kv2p va)
  else if writable m cr3 va then translate m cr3 va else none

def loadByte (m : Mem) (cr3 va : Nat) : Option Byte := (readPaddr m cr3 va).map m

def storeByte (m : Mem) (cr3 va : Nat) (c : Byte) : Option Mem :=
  (writePaddr m cr3 va).map fun paddr => Function.update m paddr c

/-- The first `n` turns of `memset`. -/
def memset (m : Mem) (cr3 buf : Nat) (value : Byte) : Nat → Option Mem
  | 0 => some m
  | i + 1 => (memset m cr3 buf value i).bind fun m => storeByte m cr3 (wadd buf i) value

/-- The first `n` turns of `memcpy`. -/
def memcpy (m : Mem) (cr3 dst src : Nat) : Nat → Option Mem
  | 0 => some m
  | i + 1 => (memcpy m cr3 dst src i).bind fun m =>
    (loadByte m cr3 (wadd src i)).bind fun c => storeByte m cr3 (wadd dst i) c

/-- The rest of the body of the page loop of `clone_page_dir`, once the new page is mapped. -/
def clonePageMapped (kdir cr3 src dest i j paddr tmpDestPageVaddr : Nat) (s : Pmm) : Option Pmm := do
  let srcPageVaddr := pageIdxVaddr i j 0
  let m ← memcpy s.mem cr3 tmpDestPageVaddr srcPageVaddr pageSize
  let m := kunmap kdir m tmpDestPageVaddr
  let m := putPage m (getTable m dest i) j (getPage m (getTable m src i) j)
  let m := putPage m (getTable m dest i) j { getPage m (getTable m dest i) j with
    accessed := false, dirty := false, frame := BitVec.ofNat 20 (paddr / pageSize) }
  return { s with mem := m }

/-- The body of the page loop, for page `j` of table `i`. -/
def clonePage (kdir cr3 src dest i j : Nat) (s : Pmm) : Option Pmm :=
  if (getPage s.mem (getTable s.mem src i) j).frame ≠ 0 then do
    let new ← s.allocPages pmmFlagsHighmem 1
    let mapped := new.1.kmap kdir new.2
    clonePageMapped kdir cr3 src dest i j new.2 mapped.2 mapped.1
  else some s

/-- The page loop, for `n` more pages from `j` on. -/
def clonePagesFrom (kdir cr3 src dest i : Nat) : Nat → Nat → Pmm → Option Pmm
  | _, 0, s => some s
  | j, n + 1, s => do
    let s ← clonePage kdir cr3 src dest i j s
    clonePagesFrom kdir cr3 src dest i (j + 1) n s

/-- Entry `i` of the copy names the new table. -/
def cloneEntry (src dest i tablePaddr : Nat) (m : Mem) : Mem :=
  let destPageTable := kp2v tablePaddr
  let m := putTable m dest i destPageTable
  let m := putDirEntry m dest i (getDirEntry m src i)
  putDirEntry m dest i { getDirEntry m dest i with
    frame := BitVec.ofNat 20 (pageFrame (kv2p destPageTable)), accessed := false }

/-- The body of the table loop of `clone_page_dir`. -/
def cloneTable (kdir cr3 src dest i : Nat) (s : Pmm) : Option Pmm :=
  if i ≥ kernStartTbl then
    let m := putDirEntry s.mem dest i (getDirEntry s.mem src i)
    some { s with mem := putTable m dest i (getTable m src i) }
  else if (getDirEntry s.mem src i).frame ≠ 0 then do
    let new ← s.allocPages pmmFlagsDefault 1
    clonePagesFrom kdir cr3 src dest i 0 1024
      { new.1 with mem := cloneEntry src dest i new.2 new.1.mem }
  else some s

/-- The table loop, for `n` more tables from `i` on. -/
def cloneTablesFrom (kdir cr3 src dest : Nat) : Nat → Nat → Pmm → Option Pmm
  | _, 0, s => some s
  | i, n + 1, s => do
    let s ← cloneTable kdir cr3 src dest i s
    cloneTablesFrom kdir cr3 src dest (i + 1) n s

/-- `clone_page_dir`. -/
def clonePageDir (kdir cr3 src dest : Nat) (s : Pmm) : Option Pmm :=
  cloneTablesFrom kdir cr3 src dest 0 1024 s

/-! ## What is used stays used -/

/-- No frame is given back, and a failure is not forgotten. -/
structure Pmm.Grows (s s' : Pmm) : Prop where
  used : ∀ f, s.framemap.test f = true → s'.framemap.test f = true
  failed : s.failed = true → s'.failed = true

section Grows

variable {s s' s'' : Pmm} {flags : PmmFlags} {count base kdir cr3 src dest i j n paddr vaddr : Nat}

theorem Pmm.Grows.refl (s : Pmm) : s.Grows s := ⟨fun _ h => h, fun h => h⟩

theorem Pmm.Grows.trans (h : s.Grows s') (h' : s'.Grows s'') : s.Grows s'' :=
  ⟨fun f hf => h'.used f (h.used f hf), fun hf => h'.failed (h.failed hf)⟩

theorem Pmm.allocPages_eq_some (h : s.allocPages flags count = some (s', base)) :
    Mm.allocPages s.framemap flags count = some (base, s'.framemap) ∧
      s' = { s with framemap := s'.framemap, failed := s.failed || base == 0 } := by
  unfold Pmm.allocPages at h
  cases ha : Mm.allocPages s.framemap flags count with
  | none =>
    rw [ha] at h
    cases h
  | some result =>
    rw [ha] at h
    obtain ⟨rfl, rfl⟩ := Prod.mk.inj (Option.some.inj h)
    exact ⟨rfl, rfl⟩

theorem Pmm.allocPages_of_eq_some {framemap : FrameMap}
    (h : Mm.allocPages s.framemap flags count = some (base, framemap)) :
    s.allocPages flags count =
      some ({ s with framemap := framemap, failed := s.failed || base == 0 }, base) := by
  unfold Pmm.allocPages
  rw [h]

theorem Pmm.allocPages_eq_none :
    s.allocPages flags count = none ↔ Mm.allocPages s.framemap flags count = none := by
  unfold Pmm.allocPages
  cases Mm.allocPages s.framemap flags count with
  | none => exact iff_of_true rfl rfl
  | some result => exact iff_of_false nofun nofun

/-- The two outcomes of `alloc_pages` on the state. -/
theorem Pmm.allocPages_cases (h0 : s.framemap.test 0 = true)
    (h : s.allocPages flags count = some (s', base)) :
    base = 0 ∧ s' = { s with failed := true } ∨
      base ≠ 0 ∧ Allocated s.framemap s'.framemap base count ∧
        s' = { s with framemap := s'.framemap } := by
  obtain ⟨ha, heq⟩ := Pmm.allocPages_eq_some h
  rcases Mm.allocPages_cases h0 ha with ⟨rfl, hsame⟩ | hnew
  · left
    rw [heq, hsame]
    simp
  · have hne : base ≠ 0 := Nat.pos_iff_ne_zero.1 hnew.positive
    refine Or.inr ⟨hne, hnew, heq.trans ?_⟩
    simp [hne]

theorem Pmm.allocPages_grows (h0 : s.framemap.test 0 = true)
    (h : s.allocPages flags count = some (s', base)) : s.Grows s' := by
  rcases Pmm.allocPages_cases h0 h with ⟨-, rfl⟩ | ⟨-, hnew, heq⟩
  · exact ⟨fun _ hf => hf, fun _ => rfl⟩
  · refine ⟨fun f hf => ?_, fun hf => by rw [heq]; exact hf⟩
    rw [hnew.marked, Bitmap.test_setRange (by decide), hf]
    exact Bool.or_true _

theorem clonePageMapped_grows
    (h : clonePageMapped kdir cr3 src dest i j paddr vaddr s = some s') : s.Grows s' := by
  unfold clonePageMapped at h
  obtain ⟨m, -, h⟩ := Option.bind_eq_some_iff.1 h
  cases h
  exact ⟨fun _ hf => hf, fun hf => hf⟩

theorem Pmm.kmap_grows (s : Pmm) (kdir paddr : Nat) : s.Grows (s.kmap kdir paddr).1 :=
  ⟨fun _ hf => hf, fun hf => by simp [Pmm.kmap, hf]⟩

theorem clonePage_grows (h0 : s.framemap.test 0 = true)
    (h : clonePage kdir cr3 src dest i j s = some s') : s.Grows s' := by
  unfold clonePage at h
  split at h
  · obtain ⟨new, ha, h⟩ := Option.bind_eq_some_iff.1 h
    exact (Pmm.allocPages_grows h0 ha).trans
      ((new.1.kmap_grows kdir new.2).trans (clonePageMapped_grows h))
  · cases h
    exact .refl s

theorem clonePagesFrom_grows (h0 : s.framemap.test 0 = true)
    (h : clonePagesFrom kdir cr3 src dest i j n s = some s') : s.Grows s' := by
  induction n generalizing j s with
  | zero =>
    cases h
    exact Pmm.Grows.refl _
  | succ n ih =>
    obtain ⟨s₁, h₁, h₂⟩ := Option.bind_eq_some_iff.1 h
    have hg := clonePage_grows h0 h₁
    exact hg.trans (ih (hg.used 0 h0) h₂)

theorem cloneTable_grows (h0 : s.framemap.test 0 = true)
    (h : cloneTable kdir cr3 src dest i s = some s') : s.Grows s' := by
  unfold cloneTable at h
  split at h
  · cases h
    exact ⟨fun _ hf => hf, fun hf => hf⟩
  split at h
  · obtain ⟨new, ha, h⟩ := Option.bind_eq_some_iff.1 h
    have hg := Pmm.allocPages_grows h0 ha
    have h₁ := clonePagesFrom_grows
      (s := { new.1 with mem := cloneEntry src dest i new.2 new.1.mem }) (hg.used 0 h0) h
    exact hg.trans ⟨h₁.used, h₁.failed⟩
  · cases h
    exact .refl s

theorem cloneTablesFrom_grows (h0 : s.framemap.test 0 = true)
    (h : cloneTablesFrom kdir cr3 src dest i n s = some s') : s.Grows s' := by
  induction n generalizing i s with
  | zero =>
    cases h
    exact Pmm.Grows.refl _
  | succ n ih =>
    obtain ⟨s₁, h₁, h₂⟩ := Option.bind_eq_some_iff.1 h
    have hg := cloneTable_grows h0 h₁
    exact hg.trans (ih (hg.used 0 h0) h₂)

theorem clonePageDir_grows (h0 : s.framemap.test 0 = true)
    (h : clonePageDir kdir cr3 src dest s = some s') : s.Grows s' := cloneTablesFrom_grows h0 h

end Grows

end BrownieOS.Mm
