import BrownieOS.Core.OrderedArray
import BrownieOS.Lib.ByteMemory
import BrownieOS.Mm.Frames

/-!
# The kernel heap of `mm/kmm.c`

Blocks carry a 16-byte header and a 16-byte footer; two ordered arrays hold the
addresses of all headers and all footers. The heap's memory is addressed by kernel
virtual addresses. Every read and write of the C code is a read or write of that
memory here, in the same order, so what happens to a tag that overlaps another one
is what the code would do. Printing is left out.
-/
namespace BrownieOS.Mm

open BrownieOS.Lib BrownieOS.Lib.Word32 BrownieOS.Core

abbrev kheapMagic64 : Nat := 0xB10CB10CB10CB10C
abbrev kheapMagic32 : Nat := 0xB10CB10C
abbrev kheapPages : Nat := 1024

def kv2p (x : Nat) : Nat := wsub x 0xC0000000
def kp2v (x : Nat) : Nat := wadd x 0xC0000000

/-- `heap_t`, with the two arrays it points to and the memory the tags live in. -/
structure Heap where
  mem : Mem
  user : Nat
  rw : Nat
  start : Nat
  endAddr : Nat
  maxAddr : Nat
  headerArray : OrderedArray
  footerArray : OrderedArray
  magic : Nat

/-! ## `header_t` and `footer_t` -/

def headerSize (m : Mem) (header : Nat) : Nat := m.get32 header
def headerFooter (m : Mem) (header : Nat) : Nat := m.get32 (header + 4)
def headerUsed (m : Mem) (header : Nat) : Nat := m.get32 (header + 8)
def headerMagic (m : Mem) (header : Nat) : Nat := m.get32 (header + 12)
def footerHeader (m : Mem) (footer : Nat) : Nat := m.get32 footer
def footerMagic (m : Mem) (footer : Nat) : Nat := m.get64 (footer + 8)

def setHeaderSize (m : Mem) (header v : Nat) : Mem := m.set32 header v
def setHeaderFooter (m : Mem) (header v : Nat) : Mem := m.set32 (header + 4) v
def setHeaderUsed (m : Mem) (header v : Nat) : Mem := m.set32 (header + 8) v
def setHeaderMagic (m : Mem) (header v : Nat) : Mem := m.set32 (header + 12) v
def setFooterHeader (m : Mem) (footer v : Nat) : Mem := m.set32 footer v
def setFooterRes (m : Mem) (footer v : Nat) : Mem := m.set32 (footer + 4) v
def setFooterMagic (m : Mem) (footer v : Nat) : Mem := m.set64 (footer + 8) v

abbrev sizeofHeader : Nat := 16
abbrev sizeofFooter : Nat := 16

/-! ## Checks -/

def kmmPrechecks (heap : Heap) : Bool :=
  heap.magic == kheapMagic64 && heap.headerArray.size == heap.footerArray.size

def kmmChecks (m : Mem) (header footer : Nat) : Bool :=
  headerMagic m header == kheapMagic32 && footerMagic m footer == kheapMagic64 &&
    headerFooter m header == footer && footerHeader m footer == header

/-! ## Allocation -/

/-- The test of `alloc_from_block`: is the block handed out whole? The subtractions
are unsigned. -/
def takesWhole (blockSize size : Nat) : Bool :=
  decide (size ≥ wsub (wsub (wsub blockSize sizeofHeader) sizeofFooter) 64)

/-- The tag writes of the splitting branch of `alloc_from_block`. -/
def splitTags (m : Mem) (header footer size : Nat) : Mem :=
  let newFooter := wadd (wadd header size) sizeofHeader
  let newHeader := wadd newFooter sizeofFooter
  let m := setFooterHeader m newFooter header
  let m := setFooterMagic m newFooter kheapMagic64
  let m := setFooterRes m newFooter 0
  let m := setHeaderSize m newHeader
    (wsub (headerSize m header) (wadd (wadd size sizeofHeader) sizeofFooter))
  let m := setHeaderFooter m newHeader footer
  let m := setHeaderUsed m newHeader 0
  let m := setHeaderMagic m newHeader kheapMagic32
  let m := setFooterHeader m footer newHeader
  let m := setHeaderSize m header size
  let m := setHeaderFooter m header newFooter
  setHeaderUsed m header 1

def allocFromBlock (heap : Heap) (header footer size : Nat) : Heap × Nat :=
  if takesWhole (headerSize heap.mem header) size then
    ({ heap with mem := setHeaderUsed heap.mem header 1 }, header)
  else
    let newFooter := wadd (wadd header size) sizeofHeader
    let newHeader := wadd newFooter sizeofFooter
    ({ heap with
        mem := splitTags heap.mem header footer size
        headerArray := (heap.headerArray.insert newHeader).1
        footerArray := (heap.footerArray.insert newFooter).1 }, header)

/-- The request rounded up to 16 bytes, modulo `2 ^ 32`. -/
def alignRequest (size : Nat) : Nat :=
  if size % 16 ≠ 0 then wadd size (16 - size % 16) else size

/-- The search loop of `alloc`, with `n` entries left from `i` on. -/
def allocSearch (heap : Heap) (size : Nat) : Nat → Nat → Heap × Nat
  | _, 0 => (heap, 0)
  | i, n + 1 =>
    let header := heap.headerArray.get i
    let footer := heap.footerArray.get i
    if headerUsed heap.mem header ≠ 0 ∨ headerSize heap.mem header < size then
      allocSearch heap size (i + 1) n
    else if kmmChecks heap.mem header footer = false then
      allocSearch heap size (i + 1) n
    else if size ≤ headerSize heap.mem header then
      let taken := allocFromBlock heap header footer size
      (taken.1, wadd taken.2 sizeofHeader)
    else
      allocSearch heap size (i + 1) n

/-- `alloc`: the heap after the call and the payload address, 0 on failure. -/
def alloc (heap : Heap) (size : Nat) : Heap × Nat :=
  if size = 0 then (heap, 0)
  else if kmmPrechecks heap = false then (heap, 0)
  else allocSearch heap (alignRequest size) 0 heap.headerArray.size

/-! ## Release -/

/-- The tag writes of the merging branch of `unify_left`. -/
def absorbLeftTags (m : Mem) (prevHeader prevFooter header footer : Nat) : Mem :=
  let m := setHeaderSize m prevHeader (wadd (headerSize m prevHeader)
    (wadd (wadd (headerSize m header) sizeofHeader) sizeofFooter))
  let m := setHeaderFooter m prevHeader footer
  let m := setFooterHeader m footer prevHeader
  let m := setHeaderSize m header 0
  let m := setHeaderFooter m header 0
  let m := setHeaderUsed m header 0
  let m := setHeaderMagic m header 0
  let m := setFooterHeader m prevFooter 0
  let m := setFooterRes m prevFooter 0
  setFooterMagic m prevFooter 0

/-- `unify_left`: the heap after the call and the header of the block. -/
def unifyLeft (heap : Heap) (header footer : Nat) : Heap × Nat :=
  let index := heap.headerArray.find header
  if index > 0 then
    let prevHeader := heap.headerArray.get (index - 1)
    let prevFooter := headerFooter heap.mem prevHeader
    if headerUsed heap.mem prevHeader = 0 then
      ({ heap with
          mem := absorbLeftTags heap.mem prevHeader prevFooter header footer
          footerArray := heap.footerArray.remove (index - 1)
          headerArray := heap.headerArray.remove index }, prevHeader)
    else (heap, header)
  else (heap, header)

/-- The tag writes of the merging branch of `unify_right`. -/
def absorbRightTags (m : Mem) (header footer nextHeader nextFooter : Nat) : Mem :=
  let m := setHeaderSize m header (wadd (headerSize m header)
    (wadd (wadd (headerSize m nextHeader) sizeofHeader) sizeofFooter))
  let m := setHeaderFooter m header nextFooter
  let m := setFooterHeader m nextFooter header
  let m := setFooterHeader m footer 0
  let m := setFooterRes m footer 0
  let m := setFooterMagic m footer 0
  let m := setHeaderSize m nextHeader 0
  let m := setHeaderFooter m nextHeader 0
  let m := setHeaderUsed m nextHeader 0
  setHeaderMagic m nextHeader 0

/-- `unify_right`: the heap after the call and the footer of the block. -/
def unifyRight (heap : Heap) (header footer : Nat) : Heap × Nat :=
  let index := heap.headerArray.find header
  if index < wsub heap.headerArray.size 1 then
    let nextHeader := heap.headerArray.get (index + 1)
    let nextFooter := headerFooter heap.mem nextHeader
    if headerUsed heap.mem nextHeader = 0 then
      ({ heap with
          mem := absorbRightTags heap.mem header footer nextHeader nextFooter
          footerArray := heap.footerArray.remove index
          headerArray := heap.headerArray.remove (index + 1) }, nextFooter)
    else (heap, footer)
  else (heap, footer)

def unify (heap : Heap) (header footer : Nat) : Heap :=
  let left := unifyLeft heap header footer
  let right := unifyRight left.1 left.2 footer
  { right.1 with mem := setHeaderUsed right.1.mem left.2 0 }

def free (heap : Heap) (ptr : Nat) : Heap :=
  let header := wsub ptr sizeofHeader
  let footer := headerFooter heap.mem header
  if kmmPrechecks heap = false then heap
  else if kmmChecks heap.mem header footer = false then heap
  else unify heap header footer

/-- `kmalloc` on the global heap. -/
def kmalloc (kheap : Heap) (size : Nat) : Heap × Nat := alloc kheap size

/-- `kfree` on the global heap. -/
def kfree (kheap : Heap) (ptr : Nat) : Heap := free kheap ptr

/-- `kheap_init` from the start address on: one free block over the whole heap. -/
def kheapInitAt (mem : Mem) (start : Nat) : Heap :=
  let endAddr := wadd start (1024 * pageSize)
  let initHeader := start
  let initFooter := wsub endAddr sizeofFooter
  let m := setHeaderMagic mem initHeader kheapMagic32
  let m := setHeaderSize m initHeader
    (wsub endAddr (wadd (wadd start sizeofHeader) sizeofFooter))
  let m := setHeaderUsed m initHeader 0
  let m := setHeaderFooter m initHeader initFooter
  let m := setFooterMagic m initFooter kheapMagic64
  let m := setFooterHeader m initFooter initHeader
  let m := setFooterRes m initFooter 0
  { mem := m
    user := 0
    rw := 1
    start := start
    endAddr := endAddr
    maxAddr := endAddr
    headerArray := ((OrderedArray.initPlace (fun _ => 0) 4096).insert initHeader).1
    footerArray := ((OrderedArray.initPlace (fun _ => 0) 4096).insert initFooter).1
    magic := kheapMagic64 }

/-- `kheap_init`: the heap and the frame bitmap it leaves. The memory of the frames
it gets is whatever it was. `none` when the frame scan does not return. -/
def kheapInit (mem : Mem) (framemap : FrameMap) : Option (Heap × FrameMap) :=
  match allocPages framemap pmmFlagsDefault kheapPages with
  | none => none
  | some (base, framemap) => some (kheapInitAt mem (kp2v base), framemap)

end BrownieOS.Mm
