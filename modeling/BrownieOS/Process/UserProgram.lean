import BrownieOS.Core.SyscallTable
import BrownieOS.Mm.CloneFrames
import BrownieOS.Process.Create

/-!
# `make_user_proc_with_message` of `core/kernel.c`

A page of code and a page of data are filled through temporary mappings and then mapped into
a new process. The stores reach those two frames, whatever the program and the message, as
long as the message fits in its page.
-/
namespace BrownieOS.Process

open BrownieOS.Lib BrownieOS.Lib.Word32 BrownieOS.Core BrownieOS.Mm

abbrev userTestCodeVa : Nat := 0x00400000
abbrev userTestDataVa : Nat := 0x00401000

/-- `buf[i++] = c` for each of the bytes. -/
def storeBytes (cr3 buf : Nat) : Nat → List Byte → Mem → Option Mem
  | _, [], m => some m
  | i, c :: cs, m => (storeByte m cr3 (wadd buf i) c).bind (storeBytes cr3 buf (i + 1) cs)

/-- The bytes of an `imm32`. -/
def immBytes (imm : Nat) : List Byte :=
  [BitVec.ofNat 8 imm, BitVec.ofNat 8 (imm / 256), BitVec.ofNat 8 (imm / 65536),
    BitVec.ofNat 8 (imm / 16777216)]

/-- The program: `mov eax`, `mov ebx` and `mov ecx`, `int 0x80`, and a jump to itself. -/
def userProgram (msgLen : Nat) : List Byte :=
  0xB8 :: immBytes sysPrintStringNumber ++ 0xBB :: immBytes userTestDataVa ++
    0xB9 :: immBytes msgLen ++ [0xCD, 0x80, 0xEB, 0xFE]

/-- The stores to the two pages. -/
def writeUserPages (cr3 codePtr dataPtr : Nat) (msg : List Byte) (m : Mem) : Option Mem := do
  let m ← memset m cr3 codePtr 0x90 pageSize
  let m ← memset m cr3 dataPtr 0 pageSize
  let m ← storeBytes cr3 dataPtr 0 msg m
  let m ← storeByte m cr3 (wadd dataPtr msg.length) 0
  storeBytes cr3 codePtr 0 (userProgram msg.length) m

/-- `kunmap` of a pointer, on the state. -/
def Kernel.kunmap (k : Kernel) (image : KernelImage) (vaddr : Nat) : Kernel :=
  { k with pmm := { k.pmm with mem := Mm.kunmap image.dir k.pmm.mem vaddr } }

/-- The part from `create_proc` on; both temporary mappings are dropped on every path. -/
def makeUserProcMapped (image : KernelImage) (k : Kernel) (codePhys dataPhys codePtr dataPtr : Nat) :
    Option (Kernel × Nat) := do
  let p ← createProc image k userTestCodeVa 0 pageSize 0 .normal
  if p.2 = 0 then return ((p.1.kunmap image codePtr).kunmap image dataPtr, 0)
  else
    let code ← procMapPages p.1 p.2 userTestCodeVa codePhys 1 true
    if code.2 = false then return ((code.1.kunmap image codePtr).kunmap image dataPtr, 0)
    else
      let data ← procMapPages code.1 p.2 userTestDataVa dataPhys 1 true
      if data.2 = false then return ((data.1.kunmap image codePtr).kunmap image dataPtr, 0)
      else return ((data.1.kunmap image codePtr).kunmap image dataPtr, p.2)

/-- `make_user_proc_with_message`: the state after the call and the pointer it returns, 0 for
NULL. The message is given by its bytes, and `none` is the null pointer. -/
def makeUserProcWithMessage (image : KernelImage) (k : Kernel) :
    Option (List Byte) → Option (Kernel × Nat)
  | none => some (k, 0)
  | some msg => do
    let code ← k.pmm.allocPages pmmFlagsHighmem 1
    let data ← code.1.allocPages pmmFlagsHighmem 1
    if code.2 = 0 ∨ data.2 = 0 then return ({ k with pmm := data.1 }, 0)
    else
      let codeMap := data.1.kmap image.dir code.2
      let dataMap := codeMap.1.kmap image.dir data.2
      let k := { k with pmm := dataMap.1 }
      if codeMap.2 = 0 ∨ dataMap.2 = 0 then
        let k := if codeMap.2 ≠ 0 then k.kunmap image codeMap.2 else k
        return (if dataMap.2 ≠ 0 then k.kunmap image dataMap.2 else k, 0)
      else
        let m ← writeUserPages k.cr3 codeMap.2 dataMap.2 msg k.pmm.mem
        makeUserProcMapped image { k with pmm := { k.pmm with mem := m } } code.2 data.2 codeMap.2
          dataMap.2

/-! ## Where the stores go -/

/-- The kernel reaches the frames `F` and `F'` at `v` and `v'`; besides these frames, only the
kernel's tables have been written since `s`. -/
structure TwoMapped (image : KernelImage) (s : Pmm) (F F' v v' : Nat) (m : Mem) : Prop where
  first : MappedAt image m F v
  second : MappedAt image m F' v'
  others : ∀ f, f ≠ F → f ≠ F' → ¬ KernelTable image f → s.mem.SameFrame m f

/-- A frame that may be written: it is not the kernel's, nor is the directory `C` in it. -/
structure PlainFrame (C F : Nat) : Prop where
  inside : F < nFrames
  high : 1024 ≤ F
  apart : F ≠ C

/-- The pages as they are filled: the program, with `nop` behind it, and the message, with zeros. -/
structure UserText (m : Mem) (F F' : Nat) (msg : List Byte) : Prop where
  code : ∀ x < 4096, m (4096 * F + x) = (userProgram msg.length).getD x 0x90
  data : ∀ x < 4096, m (4096 * F' + x) = msg.getD x 0

section Stores

variable {image : KernelImage} {s : Pmm} {m m₁ m' : Mem} {C F F' G v v' cr3 buf i n : Nat}
  {bytes msg : List Byte}

theorem memset_window (hw : WindowTo m cr3 buf F) (c : Byte) (hn : n ≤ 4096) :
    ∃ m', memset m cr3 buf c n = some m' ∧ OnlyFrame m m' F ∧ ∀ x < n, m' (4096 * F + x) = c := by
  induction n with
  | zero => exact ⟨m, rfl, .refl m F, fun x hx => absurd hx (Nat.not_lt_zero x)⟩
  | succ n ih =>
    obtain ⟨m₁, h₁, ho, hset⟩ := ih (by omega)
    refine ⟨Function.update m₁ (4096 * F + n) c, ?_, ho.update c (by omega), fun x hx => ?_⟩
    · rw [memset, h₁, Option.bind_some, storeByte_window hw ho (by omega)]
    · by_cases he : x = n
      · rw [he, Function.update_self]
      · rw [Function.update_of_ne (by omega)]
        exact hset x (by omega)

theorem storeBytes_window (hw : WindowTo m cr3 buf F) (ho : OnlyFrame m m₁ F)
    (hn : i + bytes.length ≤ 4096) :
    ∃ m', storeBytes cr3 buf i bytes m₁ = some m' ∧ OnlyFrame m m' F ∧ ∀ x < 4096,
      m' (4096 * F + x) = if x < i then m₁ (4096 * F + x) else bytes.getD (x - i) (m₁ (4096 * F + x)) := by
  induction bytes generalizing i m₁ with
  | nil =>
    refine ⟨m₁, rfl, ho, fun x _ => ?_⟩
    rw [List.getD_nil, ite_self]
  | cons c cs ih =>
    rw [List.length_cons] at hn
    rw [storeBytes, storeByte_window hw ho (by omega), Option.bind_some]
    obtain ⟨m', hm', ho', hbytes⟩ := ih (i := i + 1) (ho.update (x := i) c (by omega)) (by omega)
    refine ⟨m', hm', ho', fun x hx => ?_⟩
    rw [hbytes x hx]
    rcases Nat.lt_trichotomy x i with hlt | rfl | hgt
    · rw [if_pos (by omega), if_pos hlt, Function.update_of_ne (by omega)]
    · rw [if_pos (by omega), if_neg (Nat.lt_irrefl x), Function.update_self, Nat.sub_self]
      rfl
    · rw [if_neg (by omega), if_neg (by omega), Function.update_of_ne (by omega),
        show x - i = x - (i + 1) + 1 by omega, List.getD_cons_succ]

theorem TwoMapped.active (h : TwoMapped image s F F' v v' m) (ha : ActiveDirectory image C s)
    (hF : PlainFrame C F) (hF' : PlainFrame C F') : ActiveDirectory image C { s with mem := m } := by
  obtain ⟨hlow, -, -, -⟩ := image.frames_low (i := 768) (by decide) (by decide)
  have h₁ := hF.high
  have h₂ := hF'.high
  exact ha.of_sameFrame (fun _ hf => hf) (h.others C hF.apart.symm hF'.apart.symm ha.apart)
    (h.others _ (by omega) (by omega) not_kernelTable_dirFrame)
    (h.others _ (by omega) (by omega) not_kernelTable_dirFrame_succ)

theorem TwoMapped.swap (h : TwoMapped image s F F' v v' m) : TwoMapped image s F' F v' v m :=
  ⟨h.second, h.first, fun f h₁ h₂ => h.others f h₂ h₁⟩

theorem TwoMapped.window (h : TwoMapped image s F F' v v' m) (ha : ActiveDirectory image C s)
    (hF : PlainFrame C F) (hF' : PlainFrame C F') : WindowTo m (4096 * C) v F :=
  h.first.window (s := { s with mem := m }) (h.active ha hF hF') hF.inside hF.high hF.apart

/-- Stores into the first frame. -/
theorem TwoMapped.store (h : TwoMapped image s F F' v v' m) (hF : 1024 ≤ F)
    (ho : OnlyFrame m m' F) : TwoMapped image s F F' v v' m' := by
  have htables : ∀ f, KernelTable image f → m.SameFrame m' f := by
    intro f hf
    have := hf.low
    exact ho f (by omega)
  exact ⟨h.first.of_sameFrame htables, h.second.of_sameFrame htables,
    fun f h₁ h₂ hT => (h.others f h₁ h₂ hT).trans (ho f h₁)⟩

/-- The pages are written, and nothing else is. -/
theorem TwoMapped.writeUserPages (h : TwoMapped image s F F' v v' m)
    (ha : ActiveDirectory image C s) (hF : PlainFrame C F) (hF' : PlainFrame C F') (hne : F ≠ F')
    (hmsg : msg.length < 4096) :
    ∃ m', writeUserPages (4096 * C) v v' msg m = some m' ∧ TwoMapped image s F F' v v' m' ∧
      UserText m' F F' msg ∧ ∀ f, f ≠ F → f ≠ F' → m.SameFrame m' f := by
  obtain ⟨m₁, hset, ho₁, hnop⟩ := memset_window (h.window ha hF hF') 0x90 (Nat.le_refl pageSize)
  have h₁ := h.store hF.high ho₁
  obtain ⟨m₂, hset', ho₂, hzero⟩ :=
    memset_window (h₁.swap.window ha hF' hF) 0 (Nat.le_refl pageSize)
  have h₂ := (h₁.swap.store hF'.high ho₂).swap
  have hw := h₂.swap.window ha hF' hF
  obtain ⟨m₃, htext, ho₃, hbytes⟩ :=
    storeBytes_window hw (.refl m₂ F') (i := 0) (show 0 + msg.length ≤ 4096 by omega)
  have hnul := storeByte_window hw ho₃ hmsg 0
  have h₄ := (h₂.swap.store hF'.high (ho₃.update 0 hmsg)).swap
  obtain ⟨m₅, hcode, ho₅, hprogram⟩ := storeBytes_window (h₄.window ha hF hF') (.refl _ F) (i := 0)
    (show 0 + (userProgram msg.length).length ≤ 4096 by simp [userProgram, immBytes])
  have hframe : ∀ f x, x < 4096 → (4096 * f + x) / 4096 = f := by omega
  refine ⟨m₅, ?_, h₄.store hF.high ho₅, ⟨fun x hx => ?_, fun x hx => ?_⟩, fun f h h' => ?_⟩
  · unfold Process.writeUserPages
    rw [hset, Option.bind_eq_bind, Option.bind_some, hset', Option.bind_some,
      htext, Option.bind_some, hnul, Option.bind_some, hcode]
  · rw [hprogram x hx, if_neg (Nat.not_lt_zero x), Nat.sub_zero,
      ho₃.update 0 hmsg F hne _ (hframe F x hx), ho₂ F hne _ (hframe F x hx), hnop x hx]
  · rw [ho₅ F' hne.symm _ (hframe F' x hx)]
    by_cases he : x = msg.length
    · rw [he, Function.update_self]
      simp
    · rw [Function.update_of_ne (by omega), hbytes x hx, if_neg (Nat.not_lt_zero x), Nat.sub_zero,
        hzero x hx]
  · exact (((ho₁ f h).trans (ho₂ f h')).trans (ho₃.update 0 hmsg f h')).trans (ho₅ f h)

end Stores

end BrownieOS.Process
