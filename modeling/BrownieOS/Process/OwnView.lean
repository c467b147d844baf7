import BrownieOS.Core.SyscallTable
import BrownieOS.Process.Console
import BrownieOS.Process.UserViews

/-!
# User mode's registers and memory

What a process can tell of its own: the registers that an interrupt saves and restores, and
what it sees of memory. A store and `SYS_PRINT_STRING` are decided by these alone.
-/
namespace BrownieOS.Process

open BrownieOS.Lib BrownieOS.Lib.Word32 BrownieOS.Core BrownieOS.Mm

/-- The registers of user mode that an interrupt saves and restores. The `esp` of a frame is the
kernel's, and `popal` passes over it. No interrupt and no switch touches `ds`, `es`, `fs`, `gs` or
the FPU: they are for the programs to leave as `iret_jump_user` has set them. -/
structure UserRegs where
  edi : Nat
  esi : Nat
  ebp : Nat
  ebx : Nat
  edx : Nat
  ecx : Nat
  eax : Nat
  eip : Nat
  cs : Nat
  eflags : Nat
  useresp : Nat
  ss : Nat
  deriving DecidableEq

/-- The frame of an interrupt, the kernel's stack being at `esp`. -/
def UserRegs.frame (u : UserRegs) (esp intNo errCode : Nat) : IntRegs where
  edi := u.edi
  esi := u.esi
  ebp := u.ebp
  esp := esp
  ebx := u.ebx
  edx := u.edx
  ecx := u.ecx
  eax := u.eax
  intNo := intNo
  errCode := errCode
  eip := u.eip
  cs := u.cs
  eflags := u.eflags
  useresp := u.useresp
  ss := u.ss

/-- The registers after `popal` and `iret`. -/
def IntRegs.user (regs : IntRegs) : UserRegs where
  edi := regs.edi
  esi := regs.esi
  ebp := regs.ebp
  ebx := regs.ebx
  edx := regs.edx
  ecx := regs.ecx
  eax := regs.eax
  eip := regs.eip
  cs := regs.cs
  eflags := regs.eflags
  useresp := regs.useresp
  ss := regs.ss

def ProcContext.user (c : ProcContext) : UserRegs where
  edi := c.edi
  esi := c.esi
  ebp := c.ebp
  ebx := c.ebx
  edx := c.edx
  ecx := c.ecx
  eax := c.eax
  eip := c.eip
  cs := c.cs
  eflags := c.eflags
  useresp := c.useresp
  ss := c.ss

@[simp] theorem UserRegs.frame_user (u : UserRegs) (esp intNo errCode : Nat) :
    (u.frame esp intNo errCode).user = u := rfl

@[simp] theorem procContextFromRegs_user (regs : IntRegs) : (procContextFromRegs regs).user = regs.user := rfl

@[simp] theorem procContextToRegs_user (regs : IntRegs) (c : ProcContext) :
    (procContextToRegs regs c).user = c.user := rfl

/-- What is found at each address: the entries of the page, and the byte. -/
abbrev View : Type := Nat → Option ((PageDirEntry × Page) × Byte)

/-- What user mode sees through a directory. -/
def userSight (m : Mem) (cr3 : Nat) : View := fun va => if va < 4294967296 then userView m cr3 va else none

def View.byte (v : View) (va : Nat) : Option Byte := (v va).map Prod.snd

/-- A byte stored at `va`, wherever else its frame may be seen; `none` is a page fault. -/
def View.store (v : View) (va : Nat) (c : Byte) : Option View :=
  (v va).bind fun target =>
    if (target.1.1.rw && target.1.2.rw) = true then
      some fun va' => (v va').map fun found =>
        (found.1, if found.1.2.frame = target.1.2.frame ∧ va' % 4096 = va % 4096 then c else found.2)
    else none

/-- A byte stored by user mode; `none` is a page fault. -/
def storeUser (m : Mem) (cr3 va : Nat) (c : Byte) : Option Mem :=
  if va < 4294967296 ∧ userAccessible m cr3 va = true ∧ writable m cr3 va = true then
    (Mm.translate m cr3 va).map fun pa => Function.update m pa c
  else none

/-- The bytes that an instruction stores, each at its address. -/
def View.storeAll (v : View) : List (Nat × Byte) → Option View
  | [] => some v
  | (va, c) :: stores => (v.store va c).bind fun v => v.storeAll stores

def storeUserAll (m : Mem) (cr3 : Nat) : List (Nat × Byte) → Option Mem
  | [] => some m
  | (va, c) :: stores => (storeUser m cr3 va c).bind fun m => storeUserAll m cr3 stores

/-- The bytes from `src + i` on, up to a NUL or `n` of them. -/
def readString (v : View) (src : Nat) : Nat → Nat → Option (List Byte)
  | _, 0 => some []
  | i, n + 1 =>
    (v.byte (wadd src i)).bind fun c =>
      if c = 0 then some [] else (readString v src (i + 1) n).map (c :: ·)

/-- `SYS_PRINT_STRING` as the process sees it: what it returns, and the text if one is printed. -/
def printCall (v : View) (ebx ecx : Nat) : Nat × Option (List Byte) :=
  if ebx = 0 ∨ ecx = 0 then (syscallEinval, none)
  else
    match readString v ebx 0 (min ecx 255) with
    | none => (syscallEfault, none)
    | some text => (syscallSuccess, some text)

/-- The buffer of `sys_print_string`, as bytes. -/
def bufferBytes (dest : Nat → Byte) : List Byte := (List.range sysPrintStringMaxLen).map dest

section OwnView

variable {image : KernelImage} {first : FrameMap} {k : Kernel} {m : Mem} {Held : Nat → Prop}
  {C cr3 va pa n : Nat} {c : Byte} {v : View} {proc : Proc} {text : List Byte}

/-- An accessible address is seen with the byte it translates to. -/
theorem userSight_eq (hva : va < 4294967296) (hu : userAccessible m cr3 va = true) :
    ∃ found, walk m cr3 va = some found ∧
      Mm.translate m cr3 va = some (framePaddr found.2.frame + va % 4096) ∧
      userSight m cr3 va = some (found, m (framePaddr found.2.frame + va % 4096)) := by
  have hopen := hu
  rw [userAccessible, Option.any_eq_true] at hu
  obtain ⟨found, hwalk, -⟩ := hu
  refine ⟨found, hwalk, by rw [Mm.translate, hwalk, Option.map_some], ?_⟩
  rw [userSight, if_pos hva, userView, if_pos hopen, hwalk, Option.map_some]

theorem userSight_none (h : ¬ (va < 4294967296 ∧ userAccessible m cr3 va = true)) :
    userSight m cr3 va = none := by
  unfold userSight userView
  by_cases hva : va < 4294967296
  · rw [if_pos hva, if_neg fun hu => h ⟨hva, hu⟩]
  · rw [if_neg hva]

theorem storeUser_eq_some {m' : Mem} (h : storeUser m cr3 va c = some m') :
    va < 4294967296 ∧ userAccessible m cr3 va = true ∧
      ∃ pa, Mm.translate m cr3 va = some pa ∧ m' = Function.update m pa c := by
  unfold storeUser at h
  split at h
  · rename_i hopen
    obtain ⟨pa, htr, rfl⟩ := Option.map_eq_some_iff.1 h
    exact ⟨hopen.1, hopen.2.1, pa, htr, rfl⟩
  · cases h

theorem ViewKept.sight {k' : Kernel} {q : Nat} (h : ViewKept k k' q) :
    userSight k'.pmm.mem (kv2p (k.procs q).pageDirectory) =
      userSight k.pmm.mem (kv2p (k.procs q).pageDirectory) := by
  funext va
  unfold userSight
  split
  · rename_i hva
    rw [← h.view va hva, h.record]
  · rfl

/-- A store in user mode moves no page. -/
theorem UserSpaces.store_walk (hi : UserSpaces image first Closed k Held) (hva : va < 4294967296)
    (hu : userAccessible k.pmm.mem k.cr3 va = true) (htr : Mm.translate k.pmm.mem k.cr3 va = some pa)
    {x : Nat} (hx : x < 4294967296) (c : Byte) :
    userAccessible (Function.update k.pmm.mem pa c) k.cr3 x = userAccessible k.pmm.mem k.cr3 x ∧
      (userAccessible k.pmm.mem k.cr3 x = true →
        walk (Function.update k.pmm.mem pa c) k.cr3 x = walk k.pmm.mem k.cr3 x) := by
  obtain ⟨C, hC, hcr3, hpage⟩ := hi.store_page hva hu htr
  have hhalf := hi.kernelHalf hC
  have hhalf' := (hi.store hva hu htr c).kernelHalf (show SpaceOf _ C from hC)
  rw [hcr3]
  by_cases hlow : pageDirIdx x < 768
  · have hapart : ∀ f, SpaceFrame image k f → k.pmm.mem.SameFrame (Function.update k.pmm.mem pa c) f := by
      intro f hf
      apply Mem.sameFrame_update
      intro he
      rw [he] at hf
      exact (hi.pages.pages C hC _ hpage).1.not_spaceFrame hi.low hf
    have hwalk := walk_sameFrame hlow (hapart C (Or.inl ⟨C, Or.inr hC, Or.inl rfl⟩))
      fun T hT => hapart T (Or.inr ⟨C, hC, hT⟩)
    exact ⟨by rw [userAccessible, userAccessible, hwalk], fun _ => hwalk⟩
  · have hhigh : 0xC0000000 ≤ x := by
      simp only [pageDirIdx] at hlow
      omega
    have hclosed := hhalf.userAccessible hhigh hx id
    refine ⟨(hhalf'.userAccessible hhigh hx id).trans hclosed.symm, fun hopen => ?_⟩
    rw [hclosed] at hopen
    cases hopen

/-- A store, seen through the directory that it goes through. -/
theorem UserSpaces.store_sight (hi : UserSpaces image first Closed k Held) :
    (storeUser k.pmm.mem k.cr3 va c).map (fun m => userSight m k.cr3) =
      (userSight k.pmm.mem k.cr3).store va c := by
  unfold storeUser View.store
  by_cases hopen : va < 4294967296 ∧ userAccessible k.pmm.mem k.cr3 va = true
  · obtain ⟨hva, hu⟩ := hopen
    obtain ⟨target, hwalk, htr, hsight⟩ := userSight_eq hva hu
    rw [hsight, Option.bind_some, writable, hwalk, Option.any_some]
    by_cases hw : (target.1.rw && target.2.rw) = true
    · rw [if_pos ⟨hva, hu, hw⟩, if_pos hw, htr, Option.map_some, Option.map_some]
      refine congrArg some (funext fun x => ?_)
      by_cases hx : x < 4294967296
      · obtain ⟨hsame, hwalks⟩ := hi.store_walk hva hu htr hx c
        by_cases hux : userAccessible k.pmm.mem k.cr3 x = true
        · obtain ⟨found, hfound, -, hseen⟩ := userSight_eq hx hux
          obtain ⟨found', hfound', -, hseen'⟩ := userSight_eq hx (hsame.trans hux)
          rw [hwalks hux, hfound] at hfound'
          obtain rfl := Option.some.inj hfound'
          have hiff : framePaddr found.2.frame + x % 4096 = framePaddr target.2.frame + va % 4096 ↔
              found.2.frame = target.2.frame ∧ x % 4096 = va % 4096 := by
            rw [← BitVec.toNat_inj]
            simp only [framePaddr]
            omega
          rw [hseen, hseen', Option.map_some, Function.update_apply]
          simp only [hiff]
        · rw [userSight_none fun h => hux h.2, userSight_none fun h => hux (hsame ▸ h.2)]
          rfl
      · rw [userSight_none fun h => hx h.1, userSight_none fun h => hx h.1]
        rfl
    · rw [if_neg fun h => hw h.2.2, if_neg hw]
      rfl
  · rw [if_neg fun h => hopen ⟨h.1, h.2.1⟩, userSight_none hopen]
    rfl

/-- The bytes of an instruction, stored one after the other: the spaces stay, the directory that is
loaded shows the stores, and no other one does. -/
theorem UserSpaces.storeAll {stores : List (Nat × Byte)} (hi : UserSpaces image first Closed k Held) :
    (storeUserAll k.pmm.mem k.cr3 stores).map (fun m => userSight m k.cr3) =
        (userSight k.pmm.mem k.cr3).storeAll stores ∧
      ∀ m, storeUserAll k.pmm.mem k.cr3 stores = some m →
        UserSpaces image first Closed { k with pmm := { k.pmm with mem := m } } Held ∧
        ∀ q, UserProcess k q → k.cr3 ≠ kv2p (k.procs q).pageDirectory →
          userSight m (kv2p (k.procs q).pageDirectory) =
            userSight k.pmm.mem (kv2p (k.procs q).pageDirectory) := by
  induction stores generalizing k with
  | nil =>
    refine ⟨rfl, fun m hm => ?_⟩
    obtain rfl := Option.some.inj hm
    exact ⟨hi, fun _ _ _ => rfl⟩
  | cons s stores ih =>
    obtain ⟨va, c⟩ := s
    rw [storeUserAll, View.storeAll, ← hi.store_sight]
    cases hstore : storeUser k.pmm.mem k.cr3 va c with
    | none =>
      refine ⟨rfl, fun m hm => ?_⟩
      cases hm
    | some m₁ =>
      obtain ⟨hva, hu, pa, htr, rfl⟩ := storeUser_eq_some hstore
      have hi₁ := hi.store hva hu htr c
      obtain ⟨hsight, hkept⟩ := ih hi₁
      refine ⟨hsight, fun m hm => ?_⟩
      obtain ⟨hspaces, hviews⟩ := hkept m hm
      refine ⟨hspaces, fun q hq hne => (hviews q hq hne).trans ?_⟩
      exact (hi.store_view hva hu htr c hq hne).sight

/-! ## The system call -/

/-- The string stored from `i` on, a NUL behind it; what is before it stays. -/
structure Copied (st st' : CopyState) (i n : Nat) (text : List Byte) : Prop where
  length : text.length ≤ n
  noNul : 0 ∉ text
  before : ∀ j < i, st'.dest j = st.dest j
  stored : ∀ j < text.length, st'.dest (i + j) = text.getD j 0
  ended : st'.dest (i + text.length) = 0

theorem Copied.nil {st st' : CopyState} {i : Nat} (h : st'.dest = Function.update st.dest i 0) :
    Copied st st' i n [] := by
  refine ⟨Nat.zero_le n, by simp, fun j hj => ?_, fun j hj => absurd hj (Nat.not_lt_zero j), ?_⟩
  · rw [h, Function.update_of_ne (by omega)]
  · rw [h]
    exact Function.update_self _ _ _

/-- One more byte, which is not NUL. -/
theorem Copied.cons {st st₁ st' : CopyState} {i : Nat} (h : Copied st₁ st' (i + 1) n text)
    (hc : c ≠ 0) (hst : st₁.dest = Function.update st.dest i c) : Copied st st' i (n + 1) (c :: text) := by
  have hlength := h.length
  refine ⟨Nat.succ_le_succ hlength, fun h0 => ?_, fun j hj => ?_, fun j hj => ?_, ?_⟩
  · exact (List.mem_cons.1 h0).elim (fun he => hc he.symm) h.noNul
  · rw [h.before j (by omega), hst, Function.update_of_ne (by omega)]
  · cases j with
    | zero =>
      rw [Nat.add_zero, h.before i (by omega), hst, Function.update_self]
      rfl
    | succ j =>
      rw [List.length_cons] at hj
      rw [show i + (j + 1) = i + 1 + j by omega, h.stored j (by omega), List.getD_cons_succ]
  · rw [List.length_cons, show i + (text.length + 1) = i + 1 + text.length by omega]
    exact h.ended

/-- The buffer up to its NUL is the text it holds. -/
theorem Copied.bufferBytes {st st' : CopyState} (h : Copied st st' 0 255 text) :
    (bufferBytes st'.dest).takeWhile (· ≠ 0) = text := by
  have hlength := h.length
  have htext : (List.range text.length).map st'.dest = text := by
    refine List.ext_getElem (by simp) fun j hj hj' => ?_
    have hstored := h.stored j hj'
    rw [Nat.zero_add, List.getD_eq_getElem?_getD, List.getElem?_eq_getElem hj', Option.getD_some] at hstored
    rw [List.getElem_map, List.getElem_range, hstored]
  have hended := h.ended
  rw [Nat.zero_add] at hended
  rw [Process.bufferBytes, show sysPrintStringMaxLen = text.length + (255 - text.length + 1) by
      simp only [sysPrintStringMaxLen]
      omega,
    List.range_add, List.map_append, htext, List.takeWhile_append_of_pos, List.range_succ_eq_map]
  · simp [hended]
  · intro c hc
    rw [decide_eq_true_iff]
    intro he
    rw [he] at hc
    exact h.noNul hc

/-- The copy loop reads what the process sees. -/
theorem copyUserLoop_sight {proc : Option Proc} (src : Nat) (hsight : ∀ a < 4294967296,
      userAddrAccessible m proc a = userAccessible m cr3 a) : ∀ n i st,
    match readString (userSight m cr3) src i n with
    | none => ∃ st', copyUserLoop m cr3 proc src n i st = some (st', false)
    | some text => ∃ st', copyUserLoop m cr3 proc src n i st = some (st', true) ∧ Copied st st' i n text := by
  intro n
  induction n with
  | zero => exact fun i st => ⟨_, rfl, .nil rfl⟩
  | succ n ih =>
    intro i st
    have hlt : wadd src i < 4294967296 := wadd_lt _ _
    have hacc := hsight _ hlt
    rw [readString, copyUserLoop]
    by_cases hu : userAccessible m cr3 (wadd src i) = true
    · obtain ⟨found, -, htr, hseen⟩ := userSight_eq hlt hu
      rw [hu] at hacc
      simp only [View.byte, hseen, Option.map_some, Option.bind_some, hacc, htr, Bool.true_eq_false,
        if_false]
      by_cases hnul : m (framePaddr found.2.frame + wadd src i % 4096) = 0
      · simp only [if_pos hnul]
        exact ⟨_, rfl, .nil (by rw [hnul]; rfl)⟩
      · simp only [if_neg hnul]
        have hrest := ih (i + 1) { st.write i (m (framePaddr found.2.frame + wadd src i % 4096)) with
          reads := wadd src i :: st.reads }
        cases htext : readString (userSight m cr3) src (i + 1) n with
        | none =>
          rw [htext] at hrest
          exact hrest
        | some text =>
          rw [htext] at hrest
          obtain ⟨st', hcopy, hcopied⟩ := hrest
          exact ⟨st', hcopy, hcopied.cons hnul rfl⟩
    · rw [Bool.not_eq_true] at hu
      rw [hu] at hacc
      rw [View.byte, userSight_none fun h => by rw [hu] at h; exact Bool.false_ne_true h.2, if_pos hacc]
      exact ⟨st, rfl⟩

/-- What `sys_print_string` does for the current process. -/
theorem sysPrintString_sight (hsight : ∀ a < 4294967296,
      userAddrAccessible m (some proc) a = userAccessible m cr3 a) (regs : IntRegs) (stack : Nat → Byte) :
    ∃ r, sysPrintString m cr3 (some proc) regs stack = some r ∧
      r.regs = { regs with eax := (printCall (userSight m cr3) regs.ebx regs.ecx).1 } ∧
      (if r.regs.eax = syscallSuccess then some (messageLine (bufferBytes r.copy.dest)) else none) =
        (printCall (userSight m cr3) regs.ebx regs.ecx).2.map messageLine := by
  have hinvalid : syscallEinval ≠ syscallSuccess := by decide
  have hfault : syscallEfault ≠ syscallSuccess := by decide
  rw [sysPrintString, if_neg (by simp), printCall]
  by_cases hinval : regs.ebx = 0 ∨ regs.ecx = 0
  · simp only [if_pos hinval]
    exact ⟨_, rfl, rfl, if_neg hinvalid⟩
  · obtain ⟨hebx, hecx⟩ := not_or.1 hinval
    have hlimit : (if regs.ecx ≥ sysPrintStringMaxLen then sysPrintStringMaxLen - 1 else regs.ecx) =
        min regs.ecx 255 := by
      simp only [sysPrintStringMaxLen]
      split
      · omega
      · omega
    have hpos : min regs.ecx 255 ≠ 0 := by omega
    have hloop := copyUserLoop_sight regs.ebx hsight (min regs.ecx 255) 0 ⟨stack, [], []⟩
    have hcopy : ∀ st ok, copyUserLoop m cr3 (some proc) regs.ebx (min regs.ecx 255) 0 ⟨stack, [], []⟩ =
        some (st, ok) → copyUserString m cr3 (some proc) ⟨stack, [], []⟩ sysPrintStringMaxLen regs.ebx
          regs.ecx = some (st, ok) := by
      intro st ok h
      rw [copyUserString, if_neg (by simp [hebx])]
      simp only [hlimit, if_neg hpos, h]
    simp only [if_neg hinval]
    cases htext : readString (userSight m cr3) regs.ebx 0 (min regs.ecx 255) with
    | none =>
      rw [htext] at hloop
      obtain ⟨st, hst⟩ := hloop
      rw [hcopy _ _ hst]
      exact ⟨_, rfl, rfl, if_neg hfault⟩
    | some text =>
      rw [htext] at hloop
      obtain ⟨st, hst, hcopied⟩ := hloop
      rw [hcopy _ _ hst]
      refine ⟨_, rfl, rfl, ?_⟩
      have hbuffer : Copied ⟨stack, [], []⟩ st 0 255 text :=
        ⟨hcopied.length.trans (Nat.min_le_right _ _), hcopied.noNul, hcopied.before, hcopied.stored,
          hcopied.ended⟩
      have hline : messageLine (bufferBytes st.dest) = messageLine text := by
        rw [← messageLine_takeWhile, hbuffer.bufferBytes]
      exact (if_pos rfl).trans (congrArg some hline)

end OwnView

end BrownieOS.Process
