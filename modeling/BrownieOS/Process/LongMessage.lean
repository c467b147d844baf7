import BrownieOS.Process.SetupRuns

/-!
# A message that does not fit in its page

`make_user_proc_with_message` copies the whole message to its data page. With highmem full that page
lies in lowmem, where the kernel reaches it in the identity window, and the bytes of a longer message
go on in the frames behind it. On the machine here these come to a page directory.
-/
namespace BrownieOS.Process

open BrownieOS.Lib BrownieOS.Lib.Word32 BrownieOS.Mm

/-! ## A machine with holes in its memory -/

/-- The frames that are free: of the holes at 2050, 2052 and 2054 those from `s` on, and those from `b`
to 2071. -/
abbrev HoleFrame (s b f : Nat) : Prop :=
  s ≤ f ∧ (f = 2050 ∨ f = 2052 ∨ f = 2054) ∨ b ≤ f ∧ f < 2072

def HolesLeft (framemap : FrameMap) (s b : Nat) : Prop :=
  ∀ f, framemap.test f = decide (¬ HoleFrame s b f)

section Holes

variable {framemap : FrameMap} {flags : PmmFlags} {s s' b b' f g count stackSize : Nat}

/-- All free frames lie in lowmem, so requests of both kinds take the lowest that will do. -/
theorem HolesLeft.take (h : HolesLeft framemap s b)
    (hflags : flags = pmmFlagsDefault ∨ flags = pmmFlagsHighmem) (hc : 1 ≤ count)
    (hw : ∀ g, f ≤ g → g < f + count → HoleFrame s b g)
    (hno : ∀ g < f, ∃ x, g ≤ x ∧ x < g + count ∧ ¬ HoleFrame s b x)
    (hleft : ∀ g, HoleFrame s' b' g ↔ HoleFrame s b g ∧ ¬ (f ≤ g ∧ g < f + count)) (hs : 2050 ≤ s)
    (hb : 2056 ≤ b) :
    ∃ framemap', allocPages framemap flags count = some (4096 * f, framemap') ∧ HolesLeft framemap' s' b' := by
  have hlast := hw (f + count - 1) (by omega) (by omega)
  have hused : ∀ g, ¬ HoleFrame s b g → framemap.test g = true := by
    intro g hg
    rw [h g, decide_eq_true hg]
  have hwin : Window (freeFrame framemap) count f := by
    intro g hg hg'
    rw [freeFrame, h g, decide_eq_false (not_not.2 (hw g hg hg'))]
    rfl
  have hlowest : ∀ g < f, ¬ Window (freeFrame framemap) count g := by
    intro g hg hwin
    obtain ⟨x, hx, hx', hnot⟩ := hno g hg
    have hfree := hwin x hx hx'
    rw [freeFrame, hused x hnot] at hfree
    cases hfree
  obtain ⟨framemap', hcall, hmark⟩ := allocPages_lowest (fun g hg => hused g (by omega)) (hused 0 (by omega))
    hflags hc (by omega) hwin hlowest
  refine ⟨framemap', hcall, fun g => ?_⟩
  rw [hmark g, h g, ← Bool.decide_or, decide_eq_decide, hleft g, not_and_not_right, imp_iff_not_or, or_comm]

theorem HolesLeft.single (h : HolesLeft framemap s b)
    (hflags : flags = pmmFlagsDefault ∨ flags = pmmFlagsHighmem) (hs : s = 2050 ∨ s = 2052 ∨ s = 2054)
    (hb : 2056 ≤ b) : ∃ framemap', allocPages framemap flags 1 = some (4096 * s, framemap') ∧
      HolesLeft framemap' (s + 2) b :=
  h.take hflags (Nat.le_refl 1) (fun g hg hg' => by omega) (fun g hg => ⟨g, by omega⟩) (fun g => by omega)
    (by omega) hb

theorem HolesLeft.pair (h : HolesLeft framemap s b)
    (hflags : flags = pmmFlagsDefault ∨ flags = pmmFlagsHighmem) (hs : 2050 ≤ s) (hb : 2056 ≤ b)
    (hroom : b + 2 ≤ 2072) : ∃ framemap', allocPages framemap flags 2 = some (4096 * b, framemap') ∧
      HolesLeft framemap' s (b + 2) := by
  refine h.take hflags (by decide) (fun g hg hg' => by omega) (fun g hg => ?_) (fun g => by omega) hs hb
  by_cases hhole : HoleFrame s b g
  · exact ⟨g + 1, by omega, by omega, by omega⟩
  · exact ⟨g, by omega, by omega, hhole⟩

theorem HolesLeft.rest (h : HolesLeft framemap 2056 b)
    (hflags : flags = pmmFlagsDefault ∨ flags = pmmFlagsHighmem) (hb : 2056 ≤ b) (hroom : b < 2072) :
    ∃ framemap', allocPages framemap flags 1 = some (4096 * b, framemap') ∧ HolesLeft framemap' 2056 (b + 1) :=
  h.take hflags (Nat.le_refl 1) (fun g hg hg' => by omega) (fun g hg => ⟨g, by omega⟩) (fun g => by omega)
    (by decide) hb

/-- An address space with two pages of stack takes two pairs of frames, and a hole for its table while
there is one. -/
theorem HolesLeft.space (h : HolesLeft framemap s b) (hs : s = 2050 ∨ s = 2052 ∨ s = 2054 ∨ s = 2056)
    (hb : 2056 ≤ b) (hroom : b + 5 ≤ 2072) (hpages : stackPages stackSize = 2) :
    ∃ fm fm', allocPages framemap pmmFlagsDefault 2 = some (4096 * b, fm) ∧
      spaceFrames framemap stackSize = some (fm', true, true) ∧
      HolesLeft fm' (if s = 2056 then s else s + 2) (if s = 2056 then b + 5 else b + 4) := by
  obtain ⟨fm₁, hdir, h₁⟩ := h.pair (Or.inl rfl) (by omega) hb (by omega)
  obtain ⟨fm₂, hstack, h₂⟩ := h₁.pair (Or.inr rfl) (by omega) (by omega) (by omega)
  by_cases hlast : s = 2056
  · subst hlast
    obtain ⟨fm₃, htable, h₃⟩ := h₂.rest (Or.inl rfl) (by omega) (by omega)
    exact ⟨fm₁, fm₃, hdir, spaceFrames_taken hdir hstack htable (by omega) (by omega) hpages (by decide)
      (by decide), h₃⟩
  · obtain ⟨fm₃, htable, h₃⟩ := h₂.single (Or.inl rfl) (by omega) (by omega)
    rw [if_neg hlast, if_neg hlast]
    exact ⟨fm₁, fm₃, hdir, spaceFrames_taken hdir hstack htable (by omega) (by omega) hpages (by decide)
      (by decide), h₃⟩

/-- The frames in use before `kheap_init`: from 1024 to 2047, those of the holes and the sixteen from
2056 on are free. -/
def holesStart : FrameMap := fun cell =>
  if 128 ≤ cell ∧ cell < 256 ∨ 257 ≤ cell ∧ cell < 259 then 0#8 else if cell = 256 then 0xAB#8 else 0xFF#8

/-- Those in use after it. -/
def holesFrames : FrameMap := fun cell =>
  if 257 ≤ cell ∧ cell < 259 then 0#8 else if cell = 256 then 0xAB#8 else 0xFF#8

def holesKernel : Kernel :=
  { pagedKernel with pmm := { pagedKernel.pmm with framemap := holesFrames } }

theorem holesFrames_left : HolesLeft holesFrames 2050 2056 := by
  intro f
  have hlast : ∀ x < 8, (0xAB#8).getLsbD x = decide (x ≠ 2 ∧ x ≠ 4 ∧ x ≠ 6) := by decide
  have hfull : ∀ x < 8, (0xFF#8).getLsbD x = true := by decide
  have hbit := Nat.mod_lt f (show 0 < 8 by decide)
  unfold Bitmap.test holesFrames
  by_cases hfree : 257 ≤ f / 8 ∧ f / 8 < 259
  · rw [if_pos hfree, BitVec.getLsbD_zero, decide_eq_false (by omega)]
  · by_cases hcell : f / 8 = 256
    · rw [if_neg hfree, if_pos hcell, hlast _ hbit, decide_eq_decide]
      omega
    · rw [if_neg hfree, if_neg hcell, hfull _ hbit, decide_eq_true (by omega)]

theorem kheapInit_holesFrames : kheapInit (fun _ => 0) holesStart = some (bootHeap, holesFrames) := by
  apply kheapInit_frames (by decide) (by decide +kernel)
  intro f
  have hfull : ∀ x < 8, (0xFF#8).getLsbD x = true := by decide
  have hbit := Nat.mod_lt f (show 0 < 8 by decide)
  unfold Bitmap.test holesFrames holesStart
  by_cases hheap : 128 ≤ f / 8 ∧ f / 8 < 256
  · rw [if_neg (by omega), if_neg (by omega), hfull _ hbit, decide_eq_true (by omega), Bool.true_or]
  · rw [decide_eq_false (show ¬ (1024 ≤ f ∧ f < 2048) by omega), Bool.false_or]
    simp only [hheap, false_or]

theorem holesKernel_loaded : Loaded sampleImage holesKernel.pmm := by
  have hmem : holesKernel.pmm.mem = pagedKernel.pmm.mem := by dsimp only [holesKernel]
  refine ⟨by rw [hmem]; exact pagedKernel_loaded.memory, fun f hf => ?_⟩
  rw [show holesKernel.pmm.framemap = holesFrames from rfl, holesFrames_left f, decide_eq_true (by omega)]

end Holes

section Boot

variable {image : KernelImage} {k₀ k : Kernel} {framemap start : FrameMap}

/-- `kernel_proc_init` does not look at the frames. -/
theorem kernelProcInit_frames (framemap : FrameMap) :
    kernelProcInit image (procInit { k₀ with pmm := { k₀.pmm with framemap := framemap } }) =
      (kernelProcInit image (procInit k₀)).map
        fun k => { k with pmm := { k.pmm with framemap := framemap } } := by
  unfold kernelProcInit
  by_cases hz : ((procInit k₀).kmalloc sizeofProc).2 = 0
  · rw [if_pos hz]
    exact if_pos hz
  · rw [if_neg hz]
    exact if_neg hz

/-- The same after a boot with other frames in use. -/
theorem PagedBoot.withFrames {frames : FrameMap} (h : PagedBoot k₀ k frames) {m : Mem}
    (h0 : start.test 0 = true) (hinit : kheapInit m start = some (k₀.heap, framemap)) :
    PagedBoot { k₀ with pmm := { k₀.pmm with framemap := framemap } }
      { k with pmm := { k.pmm with framemap := framemap } } framemap := by
  have hkernel := h.boot.init
  refine ⟨⟨⟨m, start, h0, hinit⟩, h.boot.pidCtr, ?_⟩, rfl, h.failed, h.kernelSlot, ?_, h.empty, h.block,
    h.stack, h.block', h.stack'⟩
  · rw [kernelProcInit_frames, hkernel]
    rfl
  · exact (findEmptySlot_congr rfl (fun _ => rfl) _ _).trans h.slot

theorem holesKernel_boots : ∃ k, PagedBoot holesKernel k holesFrames := by
  obtain ⟨k, h⟩ := pagedKernel_boots
  exact ⟨_, h.withFrames (by decide) kheapInit_holesFrames⟩

end Boot

/-! ## Stores that run past a page of lowmem -/

section Overrun

variable {m m' : Mem} {cr3 F F' i : Nat} {bytes msg : List Byte}

theorem storeByte_identity (h : 4096 * F + i < kernIdentityPhysEnd) (c : Byte) :
    storeByte m cr3 (wadd (kp2v (4096 * F)) i) c = some (Function.update m (4096 * F + i) c) := by
  simp only [kernIdentityPhysEnd] at h
  have hptr : wadd (kp2v (4096 * F)) i = wadd (kp2v (4096 * (F + i / 4096))) (i % 4096) := by
    simp only [kp2v, wadd]
    omega
  rw [hptr, storeByte_window (windowTo_identity (by simp only [lowFrames]; omega)) (.refl m _)
    (Nat.mod_lt i (by decide)), show 4096 * (F + i / 4096) + i % 4096 = 4096 * F + i by omega]

/-- In the identity window a page is followed by the next frame. -/
theorem storeBytes_identity (h : 4096 * F + i + bytes.length ≤ kernIdentityPhysEnd) :
    ∃ m', storeBytes cr3 (kp2v (4096 * F)) i bytes m = some m' ∧
      (∀ a, a < 4096 * F + i ∨ 4096 * F + i + bytes.length ≤ a → m' a = m a) ∧
      ∀ x < bytes.length, m' (4096 * F + i + x) = bytes.getD x 0 := by
  induction bytes generalizing i m with
  | nil => exact ⟨m, rfl, fun _ _ => rfl, fun x hx => absurd hx (Nat.not_lt_zero x)⟩
  | cons c cs ih =>
    rw [List.length_cons] at h
    obtain ⟨m', hm', hsame, hbytes⟩ := @ih (Function.update m (4096 * F + i) c) (i + 1) (by omega)
    refine ⟨m', ?_, fun a ha => ?_, fun x hx => ?_⟩
    · rw [storeBytes, storeByte_identity (by omega), Option.bind_some, hm']
    · rw [List.length_cons] at ha
      rw [hsame a (by omega), Function.update_of_ne (by omega)]
    · cases x with
      | zero =>
        rw [hsame _ (by omega)]
        exact Function.update_self _ _ _
      | succ x =>
        rw [List.length_cons] at hx
        rw [List.getD_cons_succ, ← hbytes x (by omega)]
        exact congrArg m' (by omega)

/-- The pages are filled; a message that does not fit goes on in the frames behind its own. -/
theorem writeUserPages_identity (hlt : F < F') (hend : 4096 * F' + msg.length < kernIdentityPhysEnd) :
    ∃ m', writeUserPages cr3 (kp2v (4096 * F)) (kp2v (4096 * F')) msg m = some m' ∧
      (∀ f, f ≠ F → f < F' ∨ F' + msg.length / 4096 < f → m.SameFrame m' f) ∧
      (∀ x < msg.length, m' (4096 * F' + x) = msg.getD x 0) ∧ m' (4096 * F' + msg.length) = 0 := by
  have hlow : F' < lowFrames := by
    simp only [kernIdentityPhysEnd] at hend
    simp only [lowFrames]
    omega
  have hw : ∀ {m : Mem}, WindowTo m cr3 (kp2v (4096 * F)) F := windowTo_identity (by omega)
  obtain ⟨m₁, hset, ho₁, -⟩ := memset_window hw 0x90 (m := m) (Nat.le_refl pageSize)
  have hw' : WindowTo m₁ cr3 (kp2v (4096 * F')) F' := windowTo_identity hlow
  obtain ⟨m₂, hset', ho₂, -⟩ := memset_window hw' 0 (Nat.le_refl pageSize)
  obtain ⟨m₃, htext, hsame, hbytes⟩ := @storeBytes_identity m₂ cr3 F' 0 msg (by omega)
  obtain ⟨m₅, hcode, ho₅, -⟩ := storeBytes_window hw (.refl _ F) (i := 0)
    (m := Function.update m₃ (4096 * F' + msg.length) 0)
    (show 0 + (userProgram msg.length).length ≤ 4096 by simp [userProgram, immBytes])
  have hkept : ∀ x, m₅ (4096 * F' + x) = Function.update m₃ (4096 * F' + msg.length) 0 (4096 * F' + x) :=
    fun x => ho₅ ((4096 * F' + x) / 4096) (by omega) _ rfl
  refine ⟨m₅, ?_, fun f hf hout => ?_, fun x hx => ?_, ?_⟩
  · unfold writeUserPages
    rw [hset, Option.bind_eq_bind, Option.bind_some, hset', Option.bind_some, htext, Option.bind_some,
      storeByte_identity hend, Option.bind_some, hcode]
  · refine ((ho₁ f hf).trans (ho₂ f (by omega))).trans (.trans (fun a ha => ?_) (ho₅ f hf))
    rw [Function.update_of_ne (by omega), hsame a (by omega)]
  · rw [hkept, Function.update_of_ne (by omega), ← hbytes x hx, Nat.add_zero]
  · rw [hkept, Function.update_self]

end Overrun

/-! ## The message -/

/-- Two pages of text, and then three bytes that with the NUL make an entry of a page directory:
present, writable and for user mode, with frame 2056. -/
def longMessage : List Byte := List.replicate 8192 0x41 ++ [0x07, 0x80, 0x80]

section LongMessage

variable {k k₁ : Kernel} {s : Pmm} {framemap : FrameMap}

theorem longMessage_length : longMessage.length = 8195 := by
  rw [longMessage, List.length_append, List.length_replicate]
  rfl

theorem longMessage_last (x : Nat) : longMessage.getD (8192 + x) 0 = [0x07, 0x80, 0x80].getD x 0 := by
  rw [longMessage, List.getD_eq_getElem?_getD, List.getElem?_append_right (by rw [List.length_replicate]; omega),
    List.length_replicate, Nat.add_sub_cancel_left, ← List.getD_eq_getElem?_getD]

theorem zero_not_mem_longMessage : 0 ∉ longMessage := by
  rw [longMessage, List.mem_append, not_or, List.mem_replicate]
  decide

/-- A directory whose first entry names the directory itself, for user mode, is reached through it. -/
theorem reaches_itself {m : Mem} (hword : m.word 2056 0 = 0x808007) : ReachesFrame m (4096 * 2056) 2056 := by
  have hwalk : walk m (4096 * 2056) 0 = some (.decode 0x808007, .decode 0x808007) := by
    have hentry : (PageDirEntry.decode 0x808007).frame.toNat = 2056 := by decide
    rw [walk_frames, show pageDirIdx 0 = 0 from rfl, hword, if_pos (by decide), hentry,
      show pageTblIdx 0 = 0 from rfl, hword, if_pos (by decide)]
  refine ⟨0, by decide, ?_, _, by rw [Mm.translate, hwalk, Option.map_some], by decide⟩
  rw [userAccessible, hwalk, Option.any_some]
  decide

/-- What `kmap` does below 896 MiB. -/
theorem Pmm.kmap_identity {s : Pmm} {kdir F : Nat} (hF : F ≠ 0) (hlow : F < lowFrames) :
    s.kmap kdir (4096 * F) = (s, kp2v (4096 * F)) := by
  have hne : (kp2v (4096 * F) == 0) = false := beq_false_of_ne (kp2v_low_ne_zero hlow)
  have hmap : Mm.kmap kdir s.mem (4096 * F) = (s.mem, kp2v (4096 * F)) := by
    simp only [lowFrames] at hlow
    rw [Mm.kmap, if_neg (by omega), if_pos (by simp only [kernIdentityPhysEnd]; omega)]
  unfold Pmm.kmap
  dsimp only
  rw [hmap, hne, Bool.or_false]

/-- The first process on the machine with holes: its directory is in frame 2056. -/
structure HolesProcess (k k₁ : Kernel) : Prop where
  boot : PagedBoot holesKernel k holesFrames
  call : CreateStep sampleImage k (sampleCall, 0xC04000A0) k₁
  made : Made k k₁ 1 0xC04000A0 (4096 * 2056) k₁.pmm.framemap
  frames : HolesLeft k₁.pmm.framemap 2052 2060
  failed : k₁.pmm.failed = false
  spaces : UserSpaces sampleImage k.pmm.framemap Closed k₁ fun _ => False

theorem holesProcess_made : ∃ k k₁, HolesProcess k k₁ := by
  obtain ⟨k, h⟩ := holesKernel_boots
  have hi := h.boot.userSpaces holesKernel_loaded sampleImage_linked rfl
  obtain ⟨fm₁, fm, hdir, hspace, hleft⟩ := holesFrames_left.space (Or.inl rfl) (Nat.le_refl _) (by decide)
    (show stackPages sampleCall.stackSize = 2 from rfl)
  rw [← h.framemap] at hdir hspace
  obtain ⟨k₁, hcall, hmade⟩ := @CreateReady.makes _ _ sampleCall _ _ _ _ _ _ hi.createReady h.slot h.block
    (by decide) hspace hdir
  have hok := hi.createReady.succeeds h.failed hcall (by decide) ⟨⟨_, hspace⟩, h.stack⟩
  refine ⟨k, k₁, h, hcall, ?_, ?_, hok, hi.create sampleCall_userPages hcall hok⟩
  · rw [hmade.framemap]
    exact hmade
  · rw [hmade.framemap]
    exact hleft

/-- The stores of the long message, with the code in frame 2052 and the data in frame 2054. -/
theorem longMessage_stores {m : Mem} {cr3 : Nat} :
    ∃ m', writeUserPages cr3 (kp2v (4096 * 2052)) (kp2v (4096 * 2054)) longMessage m = some m' ∧
      (∀ f, f ≠ 2052 → f < 2054 ∨ 2056 < f → m.SameFrame m' f) ∧ m'.word 2056 0 = 0x808007 := by
  obtain ⟨m', hwrite, hsame, hbytes, hnul⟩ := @writeUserPages_identity m cr3 2052 2054 longMessage (by decide)
    (by rw [longMessage_length]; decide)
  rw [longMessage_length] at hsame hbytes hnul
  have hlast : ∀ x < 3, m' (4096 * 2056 + x) = [0x07, 0x80, 0x80].getD x 0 := by
    intro x hx
    rw [← longMessage_last x, ← hbytes (8192 + x) (by omega)]
    exact congrArg m' (by omega)
  have h₀ : m' (4096 * 2056) = 0x07 := hlast 0 (by decide)
  have h₁ : m' (4096 * 2056 + 1) = 0x80 := hlast 1 (by decide)
  have h₂ : m' (4096 * 2056 + 2) = 0x80 := hlast 2 (by decide)
  have h₃ : m' (4096 * 2056 + 3) = 0 := hnul
  refine ⟨m', hwrite, fun f hf hout => hsame f hf (by omega), ?_⟩
  rw [Mem.word, Mem.get32, Nat.mul_zero, Nat.add_zero, h₀, h₁, h₂, h₃]
  decide

/-- The frames of the second process. -/
theorem HolesLeft.second (h : HolesLeft framemap 2052 2060) :
    ∃ fm₁ fm₂ fm₃ fm₄ fm₅, allocPages framemap pmmFlagsHighmem 1 = some (4096 * 2052, fm₁) ∧
      allocPages fm₁ pmmFlagsHighmem 1 = some (4096 * 2054, fm₂) ∧ HolesLeft fm₂ 2056 2060 ∧
      SpaceLeft fm₂ fm₃ fm₄ fm₅ := by
  obtain ⟨fm₁, hcode, h₁⟩ := h.single (Or.inr rfl) (by decide) (by decide)
  obtain ⟨fm₂, hdata, h₂⟩ := h₁.single (Or.inr rfl) (by decide) (by decide)
  obtain ⟨fm', fm₃, hdir, hspace, h₃⟩ := h₂.space (Or.inr (Or.inr (Or.inr rfl))) (by decide) (by decide)
    (show stackPages pageSize = 2 from rfl)
  obtain ⟨fm₄, htable, h₄⟩ := h₃.rest (Or.inl rfl) (by decide) (by decide)
  obtain ⟨fm₅, htable', -⟩ := h₄.rest (Or.inl rfl) (by decide) (by decide)
  exact ⟨fm₁, fm₂, fm₃, fm₄, fm₅, hcode, hdata, h₂, ⟨_, _, hdir⟩, hspace, ⟨_, by decide, htable⟩,
    ⟨_, by decide, htable'⟩⟩

/-- What the stores leave of the first process: nothing is assumed of its directory. -/
theorem HolesProcess.spoilt (h : HolesProcess k k₁) (hframes : HolesLeft s.framemap 2056 2060)
    (hkept : ∀ f, f ≠ 2052 → f < 2054 ∨ 2056 < f → k₁.pmm.mem.SameFrame s.mem f) :
    OwnTables sampleImage s (fun _ => False) Closed ∧
      (PagesOwn sampleImage k.pmm.framemap s (fun _ => False) fun f => f = 2052 ∨ f = 2054 ∨ f = 2056) ∧
      ∃ kp kernelProc calls, TableInv kp kernelProc calls { k₁ with pmm := s } := by
  have hi := h.spaces
  have hused : ∀ f, k₁.pmm.framemap.test f = true → s.framemap.test f = true := by
    intro f hf
    rw [hframes f, decide_eq_true_eq]
    rw [h.frames f, decide_eq_true_eq] at hf
    omega
  obtain ⟨hlow, -, -, -⟩ := sampleImage.frames_low (i := 768) (by decide) (by decide)
  obtain ⟨kp, kernelProc, calls, ht⟩ := hi.spaces.table
  refine ⟨?_, ?_, kp, kernelProc, calls, @TableInv.withPmm k₁ s _ _ _ ht hused⟩
  · exact (hi.spaces.own.mono (fun _ hD => hD.elim) fun _ hD => hD.elim).of_sameFrame hused
      (hkept _ (by omega) (by omega)) (hkept _ (by omega) (by omega)) fun _ hD => hD.elim
  · refine ⟨fun f hf => hused f (hi.pages.since f hf), fun i hlt => ?_, fun f hf => ?_, fun D hD => hD.elim,
      fun D _ hD => hD.elim⟩
    · rw [(hkept _ (by omega) (by omega)).word (by omega)]
      exact hi.pages.kernel i hlt
    · refine ⟨by simp only [nFrames]; omega, ?_, ?_, fun D hD => hD.elim, fun D hD => hD.elim⟩
      · rw [h.boot.framemap, holesFrames_left f, decide_eq_false (by omega)]
      · rw [hframes f, decide_eq_true (by omega)]

/-- The second process is made, and the directory of the first is written over. -/
theorem HolesProcess.overrun (h : HolesProcess k k₁) :
    ∃ k₂, makeUserProcWithMessage sampleImage k₁ (some longMessage) = some (k₂, 0xC0402150) ∧
      k₂.pmm.failed = false ∧ k₂.procList 1 = 0xC04000A0 ∧
      (k₂.procs 0xC04000A0).pageDirectory = kp2v (4096 * 2056) ∧ k₂.pmm.mem.word 2056 0 = 0x808007 := by
  obtain ⟨fm₁, fm₂, fm₃, fm₄, fm₅, hcode, hdata, hframes, hleft⟩ := h.frames.second
  obtain ⟨s₁, htake, hs₁, hmem₁, hok₁⟩ := Pmm.takes hcode (by decide)
  rw [← hs₁] at hdata
  obtain ⟨s₂, htake', hs₂, hmem₂, hok₂⟩ := Pmm.takes hdata (by decide)
  rw [← hs₂] at hframes hleft
  obtain ⟨m, hwrite, hsame, hword⟩ := @longMessage_stores s₂.mem k₁.cr3
  rw [hmem₂, hmem₁] at hsame
  obtain ⟨ho, hp, kp, kernelProc, calls, ht⟩ := @HolesProcess.spoilt _ _ { s₂ with mem := m } h hframes hsame
  have hready := h.spaces.createReady
  have hfirst : k₁.procList 1 = 0xC04000A0 := by
    rw [h.made.list]
    exact Function.update_self _ _ _
  have hrunning := hready.slots 1 (by decide) (by decide) (by rw [hfirst]; decide)
  rw [hfirst] at hrunning
  have hblock := h.boot.block'
  have hstack := h.boot.stack'
  rw [← h.made.heap] at hblock hstack
  have hready' : CreateReady sampleImage { k₁ with pmm := { s₂ with mem := m } } :=
    ⟨hready.linked, ho.kernel, hready.heap, hready.slots⟩
  obtain ⟨k₂, hmapped, hdone, hframe⟩ := hready'.maps_message ht ho hp
    (show 2052 = 2052 ∨ 2052 = 2054 ∨ 2052 = 2056 from Or.inl rfl)
    (show 2054 = 2052 ∨ 2054 = 2054 ∨ 2054 = 2056 from Or.inr (Or.inl rfl)) (by decide)
    ((hok₂.trans hok₁).trans h.failed) hleft
    (findEmptySlot_second h.made.list (by decide) hrunning h.boot.empty.2) hblock (by decide) hstack
  have hkernel : ¬ KernelTable sampleImage 2056 := fun hT => absurd hT.low (by decide)
  refine ⟨k₂.kunmapBoth sampleImage (kp2v (4096 * 2052)) (kp2v (4096 * 2054)), ?_, ?_, ?_, ?_, ?_⟩
  · rw [makeUserProcWithMessage_written htake htake' (by decide) (by decide)
      (Pmm.kmap_identity (by decide) (by decide)) (Pmm.kmap_identity (by decide) (by decide)) (by decide)
      (by decide) hwrite]
    exact hmapped _ _
  · rw [Kernel.kunmapBoth_failed]
    exact hdone.failed
  · rw [Kernel.kunmapBoth_procList, hdone.list, Function.update_of_ne (by decide)]
    exact hfirst
  · rw [Kernel.kunmapBoth_procs, hdone.others _ (by decide)]
    exact h.made.directory
  · have hlast := @Kernel.kunmapBoth_frames _ k₂ (kp2v (4096 * 2052)) (kp2v (4096 * 2054)) 2056 hdone.directory
      (by decide) (by decide) hkernel
    rw [((hframe 2056 hkernel (by decide) (by decide)).trans hlast).word (by decide)]
    exact hword

/-- With highmem full, a message of more than two pages, none of its allocations having failed, lets the
first process into the frame of its own page directory. -/
theorem setup_not_isolated : ∃ k t, Boot sampleImage holesKernel k ∧ Loaded sampleImage holesKernel.pmm ∧
    sampleImage.Linked ∧ holesKernel.cr3 = sampleImage.dirPaddr ∧
    Run (SetupStep sampleImage) ⟨k, fun _ => False⟩
      [.create sampleCall 0xC04000A0, .message longMessage 0xC0402150] t ∧
    t.kernel.pmm.failed = false ∧
    ¬ PhysicallyIsolated sampleImage holesKernel.heap k.pmm.framemap t.kernel := by
  obtain ⟨k, k₁, h⟩ := holesProcess_made
  obtain ⟨k₂, hmessage, hok, hlist, hdir, hword⟩ := h.overrun
  have hcreate : SetupStep sampleImage ⟨k, fun _ => False⟩ (.create sampleCall 0xC04000A0)
      ⟨k₁, fun _ => False⟩ := ⟨h.call, rfl⟩
  have hcall : SetupStep sampleImage ⟨k₁, fun _ => False⟩ (.message longMessage 0xC0402150)
      ⟨k₂, fun _ => False⟩ := ⟨zero_not_mem_longMessage, hmessage, rfl⟩
  refine ⟨k, ⟨k₂, _⟩, h.boot.boot, holesKernel_loaded, sampleImage_linked, rfl,
    (Run.single hcreate).snoc hcall, hok, fun hiso => ?_⟩
  have hreach : ReachesFrame k₂.pmm.mem (kv2p (k₂.procs 0xC04000A0).pageDirectory) 2056 := by
    rw [hdir]
    exact reaches_itself hword
  have hspace : SpaceOf k₂ 2056 :=
    ⟨by decide, 0xC04000A0, ⟨by decide, 1, by decide, by decide, hlist⟩, hdir⟩
  exact (hiso.system 0xC04000A0 ⟨by decide, 1, by decide, hlist⟩ 2056 hreach).1
    (Or.inl ⟨2056, Or.inr hspace, Or.inl rfl⟩)

end LongMessage

end BrownieOS.Process
