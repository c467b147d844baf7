import BrownieOS.Mm.PageTables
import BrownieOS.Process.Context

/-!
# `SYS_PRINT_STRING` of `core/syscall.c`

The kernel checks each user address in its own tables and then reads it through the
hardware's. Beside the buffer, the copy loop carries the addresses it has read and the
indices it has written. Printing to the console is left out.
-/
namespace BrownieOS.Core

open BrownieOS.Lib BrownieOS.Lib.Word32 BrownieOS.Mm BrownieOS.Process

abbrev syscallSuccess : Nat := 0
/-- `(uint32_t)SYSCALL_EINVAL`, that is -22. -/
abbrev syscallEinval : Nat := 4294967274
/-- `(uint32_t)SYSCALL_EFAULT`, that is -14. -/
abbrev syscallEfault : Nat := 4294967282
abbrev sysPrintStringMaxLen : Nat := 256

/-- `user_addr_accessible`. -/
def userAddrAccessible (m : Mem) (proc : Option Proc) (addr : Nat) : Bool :=
  match proc with
  | none => false
  | some proc =>
    if proc.pageDirectory = 0 then false
    else if addr ≥ pageIdxVaddr kernStartTbl 0 0 then false
    else
      let dir := proc.pageDirectory
      let pdIdx := pageDirIdx addr
      let ptIdx := pageTblIdx addr
      let entry := getDirEntry m dir pdIdx
      if !entry.present || !entry.user then false
      else
        let table := getTable m dir pdIdx
        if table = 0 then false
        else
          let page := getPage m table ptIdx
          if !page.present || !page.user then false else true

/-- The buffer, the user addresses read and the indices written, latest first. -/
structure CopyState where
  dest : Nat → Byte
  reads : List Nat
  writes : List Nat

def CopyState.write (st : CopyState) (i : Nat) (c : Byte) : CopyState :=
  { st with dest := Function.update st.dest i c, writes := i :: st.writes }

/-- The loop of `copy_user_string` with `n` turns left, and what follows it. `none`:
the read faults. -/
def copyUserLoop (m : Mem) (cr3 : Nat) (proc : Option Proc) (src : Nat) :
    Nat → Nat → CopyState → Option (CopyState × Bool)
  | 0, copied, st => some (st.write copied 0, true)
  | n + 1, copied, st =>
    let addr := wadd src copied
    if userAddrAccessible m proc addr = false then some (st, false)
    else
      match Mm.translate m cr3 addr with
      | none => none
      | some paddr =>
        let c := m paddr
        let st := { st.write copied c with reads := addr :: st.reads }
        if c = 0 then some (st, true) else copyUserLoop m cr3 proc src n (copied + 1) st

/-- `copy_user_string`, into a buffer that is not NULL. -/
def copyUserString (m : Mem) (cr3 : Nat) (proc : Option Proc) (st : CopyState) (destLen src userLen : Nat) :
    Option (CopyState × Bool) :=
  if destLen = 0 ∨ src = 0 ∨ proc = none then some (st, false)
  else
    let limit := if userLen ≥ destLen then destLen - 1 else userLen
    if limit = 0 then some (st.write 0 0, true)
    else copyUserLoop m cr3 proc src limit 0 st

/-- The frame and the buffer after `sys_print_string`. -/
structure PrintResult where
  regs : IntRegs
  copy : CopyState

/-- `sys_print_string`, with the bytes its buffer happens to hold. -/
def sysPrintString (m : Mem) (cr3 : Nat) (currentProc : Option Proc) (regs : IntRegs)
    (stack : Nat → Byte) : Option PrintResult :=
  let st : CopyState := ⟨stack, [], []⟩
  if currentProc = none then some ⟨{ regs with eax := syscallEinval }, st⟩
  else
    let userBuf := regs.ebx
    let userLen := regs.ecx
    if userBuf = 0 ∨ userLen = 0 then some ⟨{ regs with eax := syscallEinval }, st⟩
    else
      match copyUserString m cr3 currentProc st sysPrintStringMaxLen userBuf userLen with
      | none => none
      | some (st, false) => some ⟨{ regs with eax := syscallEfault }, st⟩
      | some (st, true) => some ⟨{ regs with eax := syscallSuccess }, st⟩

/-! ## What the check means -/

/-- The kernel's table pointers lead to the tables the hardware walks. -/
structure MirrorsTables (m : Mem) (dir : Nat) : Prop where
  nonNull : ∀ i < 768, (getDirEntry m dir i).present = true → getTable m dir i ≠ 0
  frame : ∀ i < 768, (getDirEntry m dir i).present = true →
    kv2p (getTable m dir i) = framePaddr (getDirEntry m dir i).frame

/-- User mode can reach the address: it is below the kernel half, and the hardware
finds both entries present and for the user. -/
def UserReachable (m : Mem) (cr3 addr : Nat) : Prop :=
  addr < 0xC0000000 ∧ userAccessible m cr3 addr = true

instance (m : Mem) (cr3 addr : Nat) : Decidable (UserReachable m cr3 addr) :=
  inferInstanceAs (Decidable (_ ∧ _))

theorem userAddrAccessible_iff {m : Mem} {proc : Proc} (hdir : proc.pageDirectory ≠ 0)
    (hm : MirrorsTables m proc.pageDirectory) (addr : Nat) :
    userAddrAccessible m (some proc) addr = true ↔
      UserReachable m (kv2p proc.pageDirectory) addr := by
  have hstart : pageIdxVaddr kernStartTbl 0 0 = 0xC0000000 := rfl
  rw [userAddrAccessible, if_neg hdir, hstart, UserReachable, userAccessible, walk]
  by_cases hlow : addr < 0xC0000000
  · have hidx : pageDirIdx addr < 768 := by simp only [pageDirIdx]; omega
    have hentry : PageDirEntry.decode (m.get32 (kv2p proc.pageDirectory + 4 * pageDirIdx addr)) =
        getDirEntry m proc.pageDirectory (pageDirIdx addr) := rfl
    simp only [ge_iff_le, Nat.not_le.mpr hlow, ↓reduceIte, hentry, hlow, true_and]
    cases hp : (getDirEntry m proc.pageDirectory (pageDirIdx addr)).present with
    | false => simp
    | true =>
      have htable := hm.nonNull _ hidx hp
      have hpage : Page.decode (m.get32 (framePaddr
            (getDirEntry m proc.pageDirectory (pageDirIdx addr)).frame + 4 * pageTblIdx addr)) =
          getPage m (getTable m proc.pageDirectory (pageDirIdx addr)) (pageTblIdx addr) := by
        rw [getPage, hm.frame _ hidx hp]
      simp only [↓reduceIte, hpage, if_neg htable]
      cases hpp : (getPage m (getTable m proc.pageDirectory (pageDirIdx addr))
          (pageTblIdx addr)).present with
      | false => simp
      | true =>
        cases hu : (getDirEntry m proc.pageDirectory (pageDirIdx addr)).user with
        | false => simp [hu]
        | true => simp [hu]
  · simp [hlow, Nat.not_lt.mp hlow]

/-- A reachable address is mapped. -/
theorem UserReachable.translate_some {m : Mem} {cr3 addr : Nat} (h : UserReachable m cr3 addr) :
    ∃ paddr, Mm.translate m cr3 addr = some paddr := by
  obtain ⟨-, hacc⟩ := h
  rw [userAccessible, Option.any_eq_true] at hacc
  obtain ⟨found, hwalk, -⟩ := hacc
  exact ⟨_, by rw [Mm.translate, hwalk]; rfl⟩

/-- The byte user mode sees at an address. -/
def userByte (m : Mem) (cr3 addr : Nat) : Byte :=
  match Mm.translate m cr3 addr with
  | some paddr => m paddr
  | none => 0

/-! ## The copy loop -/

section CopyLoop

variable {m : Mem} {cr3 src : Nat} {proc : Proc} {stack : Nat → Byte}

/-- At a loop head `copied` bytes, none of them NUL, have been checked, read and stored. -/
structure CopyInv (m : Mem) (cr3 src : Nat) (stack : Nat → Byte) (copied : Nat) (st : CopyState) :
    Prop where
  reachable : ∀ i < copied, UserReachable m cr3 (wadd src i)
  stored : ∀ i < copied, st.dest i = userByte m cr3 (wadd src i) ∧ st.dest i ≠ 0
  reads : ∀ a ∈ st.reads, UserReachable m cr3 a
  writes : ∀ i ∈ st.writes, i < copied
  rest : ∀ i, copied ≤ i → st.dest i = stack i

/-- The two ways the copy ends: an address out of reach, or a string of `len` bytes. -/
inductive CopyEnd (m : Mem) (cr3 src limit : Nat) (stack : Nat → Byte) : CopyState × Bool → Prop
  | outOfReach {st : CopyState} {k : Nat} : k < limit → CopyInv m cr3 src stack k st →
      ¬ UserReachable m cr3 (wadd src k) → CopyEnd m cr3 src limit stack (st, false)
  | copied {st : CopyState} {len : Nat} : len ≤ limit →
      (∀ i < len, UserReachable m cr3 (wadd src i) ∧ st.dest i = userByte m cr3 (wadd src i) ∧
        st.dest i ≠ 0) →
      st.dest len = 0 →
      (len = limit ∨ UserReachable m cr3 (wadd src len) ∧ userByte m cr3 (wadd src len) = 0) →
      (∀ a ∈ st.reads, UserReachable m cr3 a) → (∀ i ∈ st.writes, i ≤ len) →
      (∀ i, len < i → st.dest i = stack i) → CopyEnd m cr3 src limit stack (st, true)

theorem CopyInv.start : CopyInv m cr3 src stack 0 ⟨stack, [], []⟩ where
  reachable := fun i hi => by omega
  stored := fun i hi => by omega
  reads := by simp
  writes := by simp
  rest := fun _ _ => rfl

/-- One more byte that is not NUL. -/
theorem CopyInv.next {copied : Nat} {st : CopyState} (hi : CopyInv m cr3 src stack copied st)
    (hr : UserReachable m cr3 (wadd src copied)) (hc : userByte m cr3 (wadd src copied) ≠ 0) :
    CopyInv m cr3 src stack (copied + 1) { st.write copied (userByte m cr3 (wadd src copied)) with
      reads := wadd src copied :: st.reads } := by
  constructor
  · intro i h
    by_cases he : i = copied
    · rw [he]; exact hr
    · exact hi.reachable i (by omega)
  · intro i h
    simp only [CopyState.write]
    by_cases he : i = copied
    · rw [he, Function.update_self]
      exact ⟨rfl, hc⟩
    · rw [Function.update_of_ne he]
      exact hi.stored i (by omega)
  · intro a ha
    rcases List.mem_cons.mp ha with rfl | ha
    · exact hr
    · exact hi.reads a ha
  · intro i h
    rcases List.mem_cons.mp h with rfl | h
    · omega
    · have := hi.writes i h
      omega
  · intro i h
    simp only [CopyState.write]
    rw [Function.update_of_ne (by omega)]
    exact hi.rest i (by omega)

/-- The string ends at `len`, where a NUL is stored. -/
theorem CopyInv.finish {len limit : Nat} {st st' : CopyState} (hi : CopyInv m cr3 src stack len st)
    (hle : len ≤ limit) (hdest : st'.dest = Function.update st.dest len 0)
    (hwrites : st'.writes = len :: st.writes) (hreads : ∀ a ∈ st'.reads, UserReachable m cr3 a)
    (hend : len = limit ∨ UserReachable m cr3 (wadd src len) ∧ userByte m cr3 (wadd src len) = 0) :
    CopyEnd m cr3 src limit stack (st', true) := by
  refine .copied hle (fun i h => ?_) ?_ hend hreads (fun i h => ?_) (fun i h => ?_)
  · rw [hdest, Function.update_of_ne (by omega)]
    exact ⟨hi.reachable i h, hi.stored i h⟩
  · rw [hdest, Function.update_self]
  · rw [hwrites] at h
    rcases List.mem_cons.mp h with rfl | h
    · exact Nat.le_refl _
    · exact Nat.le_of_lt (hi.writes i h)
  · rw [hdest, Function.update_of_ne (by omega)]
    exact hi.rest i (by omega)

theorem copyUserLoop_end (src : Nat) (stack : Nat → Byte) (hdir : proc.pageDirectory ≠ 0)
    (hm : MirrorsTables m proc.pageDirectory) : ∀ n copied st,
    CopyInv m (kv2p proc.pageDirectory) src stack copied st →
    ∃ r, copyUserLoop m (kv2p proc.pageDirectory) (some proc) src n copied st = some r ∧
      CopyEnd m (kv2p proc.pageDirectory) src (copied + n) stack r := by
  intro n
  induction n with
  | zero =>
    intro copied st hi
    exact ⟨_, rfl, hi.finish (Nat.le_refl _) rfl rfl hi.reads (Or.inl rfl)⟩
  | succ n ih =>
    intro copied st hi
    rw [copyUserLoop]
    have hiff := userAddrAccessible_iff hdir hm (wadd src copied)
    by_cases hr : UserReachable m (kv2p proc.pageDirectory) (wadd src copied)
    · obtain ⟨paddr, hpaddr⟩ := hr.translate_some
      have hbyte : userByte m (kv2p proc.pageDirectory) (wadd src copied) = m paddr := by
        rw [userByte, hpaddr]
      simp only [hiff.mpr hr, Bool.true_eq_false, ↓reduceIte, hpaddr]
      split
      · rename_i hnul
        refine ⟨_, rfl, hi.finish (by omega) (by simp only [CopyState.write, hnul]) rfl ?_
          (Or.inr ⟨hr, by rw [hbyte, hnul]⟩)⟩
        intro a ha
        rcases List.mem_cons.mp ha with rfl | ha
        · exact hr
        · exact hi.reads a ha
      · rename_i hnul
        have hnext := hi.next hr (by rw [hbyte]; exact hnul)
        rw [hbyte] at hnext
        rw [show copied + (n + 1) = copied + 1 + n by omega]
        exact ih (copied + 1) _ hnext
    · have hno : userAddrAccessible m (some proc) (wadd src copied) = false := by
        rw [Bool.eq_false_iff]
        exact fun h => hr (hiff.mp h)
      simp only [hno, ↓reduceIte]
      exact ⟨_, rfl, .outOfReach (by omega) hi hr⟩

end CopyLoop

/-! ## The system call -/

/-- An address out of reach comes before any NUL byte, within the first `n` addresses. -/
def FaultsWithin (m : Mem) (cr3 src n : Nat) : Prop :=
  ∃ k < n, ¬ UserReachable m cr3 (wadd src k) ∧
    ∀ j < k, ¬ (UserReachable m cr3 (wadd src j) ∧ userByte m cr3 (wadd src j) = 0)

/-- The buffer holds the user's bytes up to the first NUL or up to `n`, then a NUL. -/
def HoldsString (m : Mem) (cr3 src n : Nat) (dest : Nat → Byte) : Prop :=
  ∃ len ≤ n, (∀ i < len, UserReachable m cr3 (wadd src i) ∧
      dest i = userByte m cr3 (wadd src i) ∧ dest i ≠ 0) ∧ dest len = 0 ∧
    (len = n ∨ UserReachable m cr3 (wadd src len) ∧ userByte m cr3 (wadd src len) = 0)

/-- The copy faults exactly when the user's bytes say so. -/
theorem CopyEnd.faults_iff {m : Mem} {cr3 src limit : Nat} {stack : Nat → Byte} {st : CopyState}
    {ok : Bool} (h : CopyEnd m cr3 src limit stack (st, ok)) :
    (ok = false ↔ FaultsWithin m cr3 src limit) ∧ (ok = true → HoldsString m cr3 src limit st.dest) := by
  cases h with
  | outOfReach hk hi hno =>
    refine ⟨⟨fun _ => ⟨_, hk, hno, fun j hj hnul => ?_⟩, fun _ => rfl⟩, fun h => by simp at h⟩
    have hs := hi.stored j hj
    rw [hnul.2] at hs
    exact hs.2 hs.1
  | @copied _ len hle hall hz hend hreads hwrites hrest =>
    refine ⟨⟨fun h => by simp at h, ?_⟩, fun _ => ⟨len, hle, hall, hz, hend⟩⟩
    rintro ⟨k, hk, hno, hnul⟩
    rcases Nat.lt_trichotomy k len with h | h | h
    · exact absurd (hall k h).1 hno
    · subst h
      rcases hend with rfl | ⟨hr, -⟩
      · omega
      · exact absurd hr hno
    · rcases hend with rfl | hend
      · omega
      · exact absurd hend (hnul len h)

theorem CopyEnd.safe {m : Mem} {cr3 src limit : Nat} {stack : Nat → Byte} {st : CopyState}
    {ok : Bool} (h : CopyEnd m cr3 src limit stack (st, ok)) :
    (∀ a ∈ st.reads, UserReachable m cr3 a) ∧ (∀ i ∈ st.writes, i ≤ limit) ∧
      ∀ i, limit < i → st.dest i = stack i := by
  cases h with
  | outOfReach hk hi hno =>
    refine ⟨hi.reads, fun i h => ?_, fun i h => hi.rest i (by omega)⟩
    have := hi.writes i h
    omega
  | copied hle hall hz hend hreads hwrites hrest =>
    refine ⟨hreads, fun i h => ?_, fun i h => hrest i (by omega)⟩
    have := hwrites i h
    omega

/-- User pointers are safe in `SYS_PRINT_STRING`: for every process whose table pointers
mirror its hardware tables, whatever is in memory and in `ebx` and `ecx`, the call
returns; it reads user addresses within reach only, writes inside its buffer only, and
its result and the buffer are what the user's bytes determine. Only `eax` changes. -/
theorem sysPrintString_safe {m : Mem} {proc : Proc} (hdir : proc.pageDirectory ≠ 0)
    (hm : MirrorsTables m proc.pageDirectory) (regs : IntRegs) (stack : Nat → Byte) :
    ∃ r, sysPrintString m (kv2p proc.pageDirectory) (some proc) regs stack = some r ∧
      (∀ a ∈ r.copy.reads, UserReachable m (kv2p proc.pageDirectory) a) ∧
      (∀ i ∈ r.copy.writes, i < sysPrintStringMaxLen) ∧
      (∀ i, sysPrintStringMaxLen ≤ i → r.copy.dest i = stack i) ∧
      r.regs = { regs with eax := r.regs.eax } ∧
      (r.regs.eax = syscallEinval ↔ regs.ebx = 0 ∨ regs.ecx = 0) ∧
      (¬ (regs.ebx = 0 ∨ regs.ecx = 0) →
        (r.regs.eax = syscallEfault ↔
          FaultsWithin m (kv2p proc.pageDirectory) regs.ebx (min regs.ecx 255)) ∧
        (¬ FaultsWithin m (kv2p proc.pageDirectory) regs.ebx (min regs.ecx 255) →
          r.regs.eax = syscallSuccess ∧
            HoldsString m (kv2p proc.pageDirectory) regs.ebx (min regs.ecx 255) r.copy.dest)) := by
  rw [sysPrintString, if_neg (by simp)]
  by_cases hinval : regs.ebx = 0 ∨ regs.ecx = 0
  · simp only [if_pos hinval]
    exact ⟨_, rfl, by simp, by simp, fun _ _ => rfl, rfl, ⟨fun _ => hinval, fun _ => rfl⟩,
      fun h => absurd hinval h⟩
  · obtain ⟨hebx, hecx⟩ := not_or.mp hinval
    have hlimit : (if regs.ecx ≥ sysPrintStringMaxLen then sysPrintStringMaxLen - 1 else regs.ecx) =
        min regs.ecx 255 := by
      simp only [sysPrintStringMaxLen]
      split <;> omega
    have hpos : min regs.ecx 255 ≠ 0 := by omega
    obtain ⟨⟨st, ok⟩, hloop, hend⟩ := copyUserLoop_end regs.ebx stack hdir hm
      (min regs.ecx 255) 0 _ .start
    rw [Nat.zero_add] at hend
    have hcopy : copyUserString m (kv2p proc.pageDirectory) (some proc) ⟨stack, [], []⟩
        sysPrintStringMaxLen regs.ebx regs.ecx = some (st, ok) := by
      rw [copyUserString, if_neg (by simp [hebx])]
      simp only [hlimit, if_neg hpos, hloop]
    simp only [if_neg hinval, hcopy]
    obtain ⟨hreads, hwrites, hrest⟩ := hend.safe
    have hwrites' : ∀ i ∈ st.writes, i < sysPrintStringMaxLen := by
      intro i hi
      have := hwrites i hi
      simp only [sysPrintStringMaxLen]
      omega
    have hrest' : ∀ i, sysPrintStringMaxLen ≤ i → st.dest i = stack i := by
      intro i hi
      simp only [sysPrintStringMaxLen] at hi
      exact hrest i (by omega)
    obtain ⟨hfault, hstring⟩ := hend.faults_iff
    have hfaultCode : syscallEfault ≠ syscallEinval := by decide
    have hsuccessCode : syscallSuccess ≠ syscallEinval := by decide
    cases ok with
    | false =>
      refine ⟨_, rfl, hreads, hwrites', hrest', rfl,
        ⟨fun h => absurd h hfaultCode, fun h => absurd h hinval⟩, fun _ => ⟨?_, ?_⟩⟩
      · exact ⟨fun _ => hfault.mp rfl, fun _ => rfl⟩
      · exact fun hno => absurd (hfault.mp rfl) hno
    | true =>
      refine ⟨_, rfl, hreads, hwrites', hrest', rfl,
        ⟨fun h => absurd h hsuccessCode, fun h => absurd h hinval⟩, fun _ => ⟨?_, ?_⟩⟩
      · simpa using hfault
      · exact fun _ => ⟨rfl, hstring rfl⟩

/-- One user page at 0x400000, in frame 0x38000, that starts with "hi". -/
def oneUserPage : Mem :=
  let m : Mem := fun a => if a = 0x38000000 then 0x68 else if a = 0x38000001 then 0x69 else 0
  let m := putTable m 0xC0500000 1 0xC0502000
  let m := putDirEntry m 0xC0500000 1
    ⟨true, true, true, false, false, false, false, false, 0, 0x502⟩
  putPage m 0xC0502000 0 ⟨true, true, true, false, false, 0, 0x38000⟩

/-- A process with that page, at the moment it asks for `ecx` bytes from `ebx`. -/
def printingProc : Proc :=
  ⟨1, 0xC0500000, ⟨0, 0, 0, 0, 0, 0, 0, 0, 0, 0x1B, 0x202, 0, 0x23⟩, .running, .normal, 0, 0, 0, 0,
    0, 0, 0, 0x500000⟩

def printRegs (ebx ecx : Nat) : IntRegs :=
  ⟨0, 0, 0, 0, ebx, 0, ecx, 1, 0x80, 0, 0x400100, 0x1B, 0x202, 0, 0x23⟩

theorem oneUserPage_mirrors : MirrorsTables oneUserPage printingProc.pageDirectory where
  nonNull := by decide +kernel
  frame := by decide +kernel

theorem sysPrintString_safe_hi : ∃ r,
    sysPrintString oneUserPage (kv2p printingProc.pageDirectory) (some printingProc)
      (printRegs 0x400000 80) (fun _ => 0xFF) = some r ∧
    (∀ i ∈ r.copy.writes, i < sysPrintStringMaxLen) ∧ r.regs.eax = syscallSuccess ∧
    HoldsString oneUserPage (kv2p printingProc.pageDirectory) 0x400000 80 r.copy.dest := by
  obtain ⟨r, hr, -, hwrites, -, -, -, hresult⟩ := sysPrintString_safe
    (by decide) oneUserPage_mirrors (printRegs 0x400000 80) (fun _ => 0xFF)
  have hall : ∀ k < 80, UserReachable oneUserPage (kv2p printingProc.pageDirectory)
      (wadd 0x400000 k) := by decide +kernel
  have hno : ¬ FaultsWithin oneUserPage (kv2p printingProc.pageDirectory) 0x400000 80 := by
    rintro ⟨k, hk, hout, -⟩
    exact hout (hall k hk)
  exact ⟨r, hr, hwrites, (hresult (by decide)).2 hno⟩

end BrownieOS.Core
