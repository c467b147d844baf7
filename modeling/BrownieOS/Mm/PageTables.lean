import BrownieOS.Mm.Kmm

/-!
# Page tables and page directories of `mm/paging.h`

Entries are 32-bit words in physical memory, read and written field by field through
`page_t` and `page_dir_entry_t`. Kernel pointers to tables and directories lie in the
identity window, so an access through one goes to the physical address `KV2P` gives.
`walk` is the hardware's side: what the processor finds from a `CR3` value.
-/
namespace BrownieOS.Mm

open BrownieOS.Lib BrownieOS.Lib.Word32

def pageDirIdx (x : Nat) : Nat := x / 0x400000
def pageTblIdx (x : Nat) : Nat := x % 0x400000 / 0x1000
def pageIdxVaddr (d t o : Nat) : Nat := wadd (wadd (wmul d 0x400000) (wmul t 0x1000)) o

/-- A frame number as it is stored in a 20-bit field. -/
abbrev Frame := BitVec 20

/-- The first byte of a frame. -/
def framePaddr (f : Frame) : Nat := f.toNat * 4096

/-- A physical address as the 20-bit field receives it. -/
def frameOf (paddr : Nat) : Frame := BitVec.ofNat 20 (pageFrame paddr)

@[simp] theorem frameOf_toNat {paddr : Nat} (h : paddr < 4294967296) :
    (frameOf paddr).toNat = paddr / 4096 := by
  simp only [frameOf, pageFrame, BitVec.toNat_ofNat]
  omega

/-- `page_t`. -/
structure Page where
  present : Bool
  rw : Bool
  user : Bool
  accessed : Bool
  dirty : Bool
  unused : BitVec 7
  frame : Frame
  deriving DecidableEq

/-- `page_dir_entry_t`. -/
structure PageDirEntry where
  present : Bool
  rw : Bool
  user : Bool
  writeThru : Bool
  disableCache : Bool
  accessed : Bool
  reserved : Bool
  pageSize : Bool
  unused : BitVec 4
  frame : Frame
  deriving DecidableEq

theorem decide_bit {b : Bool} {n : Nat} (h : n = b.toNat) : decide (n = 1) = b := by
  subst h
  cases b <;> rfl

theorem ofNat_toNat_eq {w n : Nat} {x : BitVec w} (h : n % 2 ^ w = x.toNat) : BitVec.ofNat w n = x := by
  apply BitVec.eq_of_toNat_eq
  rw [BitVec.toNat_ofNat, h]

namespace Page

def encode (p : Page) : Nat :=
  p.present.toNat + 2 * p.rw.toNat + 4 * p.user.toNat + 8 * p.accessed.toNat +
    16 * p.dirty.toNat + 32 * p.unused.toNat + 4096 * p.frame.toNat

def decode (w : Nat) : Page where
  present := w.testBit 0
  rw := w.testBit 1
  user := w.testBit 2
  accessed := w.testBit 3
  dirty := w.testBit 4
  unused := BitVec.ofNat 7 (w / 32)
  frame := BitVec.ofNat 20 (w / 4096)

theorem encode_lt (p : Page) : p.encode < 4294967296 := by
  have h₀ := p.present.toNat_lt
  have h₁ := p.rw.toNat_lt
  have h₂ := p.user.toNat_lt
  have h₃ := p.accessed.toNat_lt
  have h₄ := p.dirty.toNat_lt
  unfold encode
  omega

@[simp] theorem decode_encode (p : Page) : decode p.encode = p := by
  obtain ⟨p₀, p₁, p₂, p₃, p₄, u, f⟩ := p
  have h₀ := p₀.toNat_lt
  have h₁ := p₁.toNat_lt
  have h₂ := p₂.toNat_lt
  have h₃ := p₃.toNat_lt
  have h₄ := p₄.toNat_lt
  simp only [decode, encode, Nat.testBit_eq_decide_div_mod_eq, mk.injEq]
  refine ⟨decide_bit ?_, decide_bit ?_, decide_bit ?_, decide_bit ?_, decide_bit ?_,
    ofNat_toNat_eq ?_, ofNat_toNat_eq ?_⟩ <;> omega

end Page

namespace PageDirEntry

def encode (e : PageDirEntry) : Nat :=
  e.present.toNat + 2 * e.rw.toNat + 4 * e.user.toNat + 8 * e.writeThru.toNat +
    16 * e.disableCache.toNat + 32 * e.accessed.toNat + 64 * e.reserved.toNat +
    128 * e.pageSize.toNat + 256 * e.unused.toNat + 4096 * e.frame.toNat

def decode (w : Nat) : PageDirEntry where
  present := w.testBit 0
  rw := w.testBit 1
  user := w.testBit 2
  writeThru := w.testBit 3
  disableCache := w.testBit 4
  accessed := w.testBit 5
  reserved := w.testBit 6
  pageSize := w.testBit 7
  unused := BitVec.ofNat 4 (w / 256)
  frame := BitVec.ofNat 20 (w / 4096)

theorem encode_lt (e : PageDirEntry) : e.encode < 4294967296 := by
  have h₀ := e.present.toNat_lt
  have h₁ := e.rw.toNat_lt
  have h₂ := e.user.toNat_lt
  have h₃ := e.writeThru.toNat_lt
  have h₄ := e.disableCache.toNat_lt
  have h₅ := e.accessed.toNat_lt
  have h₆ := e.reserved.toNat_lt
  have h₇ := e.pageSize.toNat_lt
  unfold encode
  omega

@[simp] theorem decode_encode (e : PageDirEntry) : decode e.encode = e := by
  obtain ⟨e₀, e₁, e₂, e₃, e₄, e₅, e₆, e₇, u, f⟩ := e
  have h₀ := e₀.toNat_lt
  have h₁ := e₁.toNat_lt
  have h₂ := e₂.toNat_lt
  have h₃ := e₃.toNat_lt
  have h₄ := e₄.toNat_lt
  have h₅ := e₅.toNat_lt
  have h₆ := e₆.toNat_lt
  have h₇ := e₇.toNat_lt
  simp only [decode, encode, Nat.testBit_eq_decide_div_mod_eq, mk.injEq]
  refine ⟨decide_bit ?_, decide_bit ?_, decide_bit ?_, decide_bit ?_, decide_bit ?_, decide_bit ?_,
    decide_bit ?_, decide_bit ?_, ofNat_toNat_eq ?_, ofNat_toNat_eq ?_⟩ <;> omega

end PageDirEntry

/-! ## Access through kernel pointers -/

def getPage (m : Mem) (table j : Nat) : Page := .decode (m.get32 (kv2p table + 4 * j))

def putPage (m : Mem) (table j : Nat) (p : Page) : Mem := m.set32 (kv2p table + 4 * j) p.encode

def getDirEntry (m : Mem) (dir i : Nat) : PageDirEntry := .decode (m.get32 (kv2p dir + 4 * i))

def putDirEntry (m : Mem) (dir i : Nat) (e : PageDirEntry) : Mem :=
  m.set32 (kv2p dir + 4 * i) e.encode

/-- `dir->tables[i]`, in the second page of the directory. -/
def getTable (m : Mem) (dir i : Nat) : Nat := m.get32 (kv2p dir + 4096 + 4 * i)

def putTable (m : Mem) (dir i table : Nat) : Mem := m.set32 (kv2p dir + 4096 + 4 * i) table

/-- `set_page`. -/
def setPage (m : Mem) (table j frame : Nat) (present rw user : Bool) : Mem :=
  putPage m table j { getPage m table j with
    frame := BitVec.ofNat 20 frame, present := present, rw := rw, user := user }

/-- The processor's page walk from `CR3`. Large pages are not enabled. -/
def walk (m : Mem) (cr3 va : Nat) : Option (PageDirEntry × Page) :=
  let entry := PageDirEntry.decode (m.get32 (cr3 + 4 * pageDirIdx va))
  if entry.present then
    let page := Page.decode (m.get32 (framePaddr entry.frame + 4 * pageTblIdx va))
    if page.present then some (entry, page) else none
  else none

/-- The physical address a virtual address translates to, if it is mapped. -/
def translate (m : Mem) (cr3 va : Nat) : Option Nat :=
  (walk m cr3 va).map fun found => framePaddr found.2.frame + va % 4096

/-- Addresses of one page translate together. -/
theorem translate_add {m : Mem} {cr3 va k : Nat} (h : va % 4096 + k < 4096) :
    translate m cr3 (va + k) = (translate m cr3 va).map fun q => q + k := by
  have hdi : pageDirIdx (va + k) = pageDirIdx va := by
    simp only [pageDirIdx]
    omega
  have hti : pageTblIdx (va + k) = pageTblIdx va := by
    simp only [pageTblIdx]
    omega
  have hoff : (va + k) % 4096 = va % 4096 + k := by omega
  rw [translate, translate, walk, walk, hdi, hti, hoff, Option.map_map]
  simp only [Function.comp_def, Nat.add_assoc]

/-- A mapped address that supervisor writes reach with write protection on. -/
def writable (m : Mem) (cr3 va : Nat) : Bool :=
  (walk m cr3 va).any fun found => found.1.rw && found.2.rw

/-- A mapped address that user mode reaches. -/
def userAccessible (m : Mem) (cr3 va : Nat) : Bool :=
  (walk m cr3 va).any fun found => found.1.user && found.2.user

/-! ## The kernel directory -/

/-- Where the linker put `kernel_directory_aligned` and `kernel_page_tables`. -/
structure KernelImage where
  dir : Nat
  tables : Nat
  dirAligned : dir % 4096 = 0
  tablesAligned : tables % 4096 = 0
  dirInside : 0xC0000000 ≤ dir ∧ dir + 8192 ≤ 0xC0400000
  tablesInside : 0xC0000000 ≤ tables ∧ tables + 1048576 ≤ 0xC0400000
  apart : dir + 8192 ≤ tables ∨ tables + 1048576 ≤ dir

/-- `&kernel_page_tables[i - KERN_START_TBL]`. -/
def KernelImage.table (image : KernelImage) (i : Nat) : Nat :=
  image.tables + 4096 * (i - kernStartTbl)

/-- The inner loop of `setup_kernel_directory`, over the first `n` pages of table `i`. -/
def setupPages (m : Mem) (curTable i : Nat) : Nat → Mem
  | 0 => m
  | j + 1 =>
    let m := setupPages m curTable i j
    if i < kernHighmemStartTbl then
      putPage m curTable j { getPage m curTable j with
        frame := BitVec.ofNat 20 ((i - kernStartTbl) * 1024 + j), present := true, rw := true }
    else m

/-- The outer loop, over the first `n` kernel tables. -/
def setupTables (image : KernelImage) (m : Mem) : Nat → Mem
  | 0 => m
  | n + 1 =>
    let m := setupTables image m n
    let i := kernStartTbl + n
    let curTable := image.table i
    let m := putTable m image.dir i curTable
    let curTablePaddr := wsub curTable 0xC0000000
    let m := putDirEntry m image.dir i { getDirEntry m image.dir i with
      frame := BitVec.ofNat 20 (curTablePaddr / pageSize), present := true, rw := true }
    setupPages m curTable i 1024

/-- `setup_kernel_directory`. -/
def setupKernelDirectory (image : KernelImage) (m : Mem) : Mem := setupTables image m 256

end BrownieOS.Mm
