import BrownieOS.Lib.CountedLoop
import BrownieOS.Mm.Directories

/-!
# The frames that `clone_page_dir` writes

A page of the source is copied through a temporary mapping of a new frame. Whatever
directory is loaded, if it has the kernel half, the copy reaches that frame and no other;
the mapping itself is written to the kernel's tables and taken out again.
-/
namespace BrownieOS.Mm

open BrownieOS.Lib BrownieOS.Lib.Word32

/-! ## Copying into one frame -/

/-- The memories differ in frame `F` at most. -/
def OnlyFrame (m m' : Mem) (F : Nat) : Prop := ∀ f, f ≠ F → m.SameFrame m' f

theorem OnlyFrame.refl (m : Mem) (F : Nat) : OnlyFrame m m F := fun f _ => .refl m f

theorem OnlyFrame.update {m m' : Mem} {F x : Nat} (h : OnlyFrame m m' F) (c : Byte) (hx : x < 4096) :
    OnlyFrame m (Function.update m' (4096 * F + x) c) F :=
  fun f hf => (h f hf).trans (Mem.sameFrame_update m' c (by omega))

/-- While no frame but `F` changes, a write to byte `x` of the window goes to byte `x` of `F`. -/
def WindowTo (m : Mem) (cr3 window F : Nat) : Prop :=
  ∀ m', OnlyFrame m m' F → ∀ x < 4096, writePaddr m' cr3 (wadd window x) = some (4096 * F + x)

section Copy

variable {m m' : Mem} {cr3 dst src n F : Nat}

theorem storeByte_window (hw : WindowTo m cr3 dst F) (ho : OnlyFrame m m' F) {x : Nat} (hx : x < 4096)
    (c : Byte) : storeByte m' cr3 (wadd dst x) c = some (Function.update m' (4096 * F + x) c) := by
  unfold storeByte
  rw [hw m' ho x hx]
  rfl

theorem memcpy_frame (hw : WindowTo m cr3 dst F) (hn : n ≤ 4096)
    (h : memcpy m cr3 dst src n = some m') : OnlyFrame m m' F := by
  induction n generalizing m' with
  | zero =>
    cases h
    exact .refl m F
  | succ n ih =>
    obtain ⟨m₁, h₁, h₂⟩ := Option.bind_eq_some_iff.1 h
    obtain ⟨c, -, h₃⟩ := Option.bind_eq_some_iff.1 h₂
    have ho := ih (by omega) h₁
    rw [storeByte_window hw ho (by omega)] at h₃
    cases h₃
    exact ho.update c (by omega)

/-- The bytes copied are those of the source, when the copy does not write what it reads. -/
theorem memcpy_bytes (hw : WindowTo m cr3 dst F) (hn : n ≤ 4096)
    (hread : ∀ m₁, OnlyFrame m m₁ F → ∀ x < n,
      readPaddr m₁ cr3 (wadd src x) = readPaddr m cr3 (wadd src x))
    (hsrc : ∀ x < n, ∀ p, readPaddr m cr3 (wadd src x) = some p → p / 4096 ≠ F)
    (h : memcpy m cr3 dst src n = some m') :
    ∀ x < n, ∃ p, readPaddr m cr3 (wadd src x) = some p ∧ m' (4096 * F + x) = m p := by
  induction n generalizing m' with
  | zero => exact fun x hx => absurd hx (Nat.not_lt_zero x)
  | succ n ih =>
    obtain ⟨m₁, h₁, h₂⟩ := Option.bind_eq_some_iff.1 h
    obtain ⟨c, hload, h₃⟩ := Option.bind_eq_some_iff.1 h₂
    have ho := memcpy_frame hw (by omega) h₁
    rw [storeByte_window hw ho (by omega)] at h₃
    cases h₃
    intro x hx
    by_cases hlast : x = n
    · subst hlast
      unfold loadByte at hload
      rw [hread m₁ ho x hx] at hload
      obtain ⟨p, hp, rfl⟩ := Option.map_eq_some_iff.1 hload
      refine ⟨p, hp, ?_⟩
      rw [Function.update_self]
      exact ho (p / 4096) (hsrc x hx p hp) p rfl
    · rw [Function.update_of_ne (by omega)]
      exact ih (by omega) (fun m₁ h₁ x hx => hread m₁ h₁ x (by omega))
        (fun x hx => hsrc x (by omega)) h₁ x (by omega)

end Copy

/-! ## The temporary mapping -/

/-- A frame of one of the kernel's tables. -/
def KernelTable (image : KernelImage) (f : Nat) : Prop :=
  ∃ i, 768 ≤ i ∧ i < 1024 ∧ f = image.tableFrame i

/-- The directory in frame `C` is loaded: it has the kernel half of the kernel's own. -/
structure ActiveDirectory (image : KernelImage) (C : Nat) (s : Pmm) : Prop where
  reserved : ∀ f < 1024, s.framemap.test f = true
  directory : KernelDirectory s.mem image
  used : s.framemap.test C = true
  apart : ¬ KernelTable image C
  entries : ∀ i, 768 ≤ i → i < 1024 → s.mem.word C i = s.mem.word image.dirFrame i

section Mapping

variable {image : KernelImage} {m m' : Mem} {s s' : Pmm} {C F f i j v : Nat}

theorem KernelTable.low (h : KernelTable image f) : f < 1024 := by
  obtain ⟨i, h₀, h₁, rfl⟩ := h
  exact (image.frames_low h₀ h₁).2.1

theorem not_kernelTable_dirFrame : ¬ KernelTable image image.dirFrame := by
  intro ⟨i, h₀, h₁, he⟩
  exact (image.frames_low h₀ h₁).2.2.1 he.symm

theorem not_kernelTable_dirFrame_succ : ¬ KernelTable image (image.dirFrame + 1) := by
  intro ⟨i, h₀, h₁, he⟩
  exact (image.frames_low h₀ h₁).2.2.2 he.symm

theorem KernelImage.slot_eq (h₀ : 768 ≤ i) (h₁ : i < 1024) :
    image.slot i j = 4096 * image.tableFrame i + 4 * j := by
  rw [KernelImage.slot, KernelImage.tablePaddr, image.kv2p_table i h₀ h₁]

/-- A write to a slot stays in the kernel's tables. -/
theorem sameFrame_slot (h₀ : 768 ≤ i) (h₁ : i < 1024) (hj : j < 1024) (hf : ¬ KernelTable image f) :
    m.SameFrame (m.set32 (image.slot i j) v) f := by
  rw [KernelImage.slot_eq h₀ h₁]
  exact Mem.sameFrame_setWord m v hj fun he => hf ⟨i, h₀, h₁, he⟩

theorem KernelDirectory.of_tables (hk : KernelDirectory m image)
    (h : ∀ f, ¬ KernelTable image f → m.SameFrame m' f) : KernelDirectory m' image :=
  hk.of_sameFrame (h _ not_kernelTable_dirFrame) (h _ not_kernelTable_dirFrame_succ)

/-- Taking the mapping out again writes the kernel's tables only. -/
theorem kunmap_frames (hk : KernelDirectory m image) (h₀ : 0xC0000000 ≤ v) (h₁ : v < 4294967296)
    (hf : ¬ KernelTable image f) : m.SameFrame (kunmap image.dir m v) f := by
  rw [kunmap_eq hk h₀ h₁]
  exact sameFrame_slot (by simp only [pageDirIdx]; omega) (by simp only [pageDirIdx]; omega)
    (by simp only [pageTblIdx]; omega) hf

theorem ActiveDirectory.shares (ha : ActiveDirectory image C s) :
    SharesKernelHalf s.mem image (4096 * C) := by
  refine ⟨Nat.mul_mod_right 4096 C, fun i h₀ h₁ => ?_, fun i h₀ h₁ => ?_⟩
  · have hne : C ≠ image.tableFrame i := fun he => ha.apart ⟨i, h₀, h₁, he⟩
    rw [KernelImage.tablePaddr, image.kv2p_table i h₀ h₁]
    omega
  · rw [getDirEntry_eq image.kv2p_dir, ← ha.entries i h₀ h₁]
    rfl

/-- The loaded directory stays when its frame and the kernel directory's do. -/
theorem ActiveDirectory.of_sameFrame (ha : ActiveDirectory image C s)
    (hused : ∀ f, s.framemap.test f = true → s'.framemap.test f = true)
    (hC : s.mem.SameFrame s'.mem C) (hK : s.mem.SameFrame s'.mem image.dirFrame)
    (hK' : s.mem.SameFrame s'.mem (image.dirFrame + 1)) : ActiveDirectory image C s' := by
  refine ⟨fun f hf => hused f (ha.reserved f hf), ha.directory.of_sameFrame hK hK', hused C ha.used,
    ha.apart, fun i h₀ h₁ => ?_⟩
  rw [hC.word h₁, hK.word h₁]
  exact ha.entries i h₀ h₁

/-- Through the highmem slot of a frame the kernel writes the frame. -/
theorem windowTo_slot (hk : KernelDirectory m image) (hs : SharesKernelHalf m image (4096 * C))
    (hF : F < 0x100000) (hFC : F ≠ C) (hFK : F ≠ image.dirFrame) (hFK' : F ≠ image.dirFrame + 1)
    (hFT : ¬ KernelTable image F) (h₀ : 992 ≤ i) (h₁ : i < 1024) (hj : j < 1024)
    (hword : m.word (image.tableFrame i) j = mappedWord (4096 * F)) :
    WindowTo m (4096 * C) (pageIdxVaddr i j 0) F := by
  intro m' ho x hx
  have hk' : KernelDirectory m' image := hk.of_sameFrame (ho _ (Ne.symm hFK)) (ho _ (Ne.symm hFK'))
  have hs' : SharesKernelHalf m' image (4096 * C) := by
    refine ⟨hs.aligned, hs.apart, fun l h₂ h₃ => ?_⟩
    have hC : m'.word C l = m.word C l := (ho C (Ne.symm hFC)).word h₃
    have hK : m'.word image.dirFrame l = m.word image.dirFrame l := (ho _ (Ne.symm hFK)).word h₃
    have he := hs.entries l h₂ h₃
    rw [getDirEntry_eq image.kv2p_dir] at he ⊢
    rw [hK, ← he]
    exact congrArg PageDirEntry.decode hC
  have hva : wadd (pageIdxVaddr i j 0) x = i * 4194304 + j * 4096 + x := by
    rw [pageIdxVaddr_eq h₁ hj (by decide)]
    simp only [wadd]
    omega
  have hdi : pageDirIdx (i * 4194304 + j * 4096 + x) = i := by simp only [pageDirIdx]; omega
  have hti : pageTblIdx (i * 4194304 + j * 4096 + x) = j := by simp only [pageTblIdx]; omega
  have hpage : getPage m' (image.table i) j = Page.decode (mappedWord (4096 * F)) := by
    rw [getPage_eq (image.kv2p_table i (by omega) h₁),
      (ho _ fun he => hFT ⟨i, by omega, h₁, he.symm⟩).word hj, hword]
  have hwalk := hk'.walk_eq hs' (show 0xC0000000 ≤ i * 4194304 + j * 4096 + x by omega) (by omega)
  rw [hdi, hti, hpage, decode_mappedWord, if_pos rfl] at hwalk
  have hrw := hk'.rw i (by omega) h₁
  rw [hva, writePaddr, if_neg (by simp only [InIdentityWindow]; omega)]
  simp only [writable, translate, hwalk, hrw, Option.any_some, Bool.and_true, ↓reduceIte,
    Option.map_some, Option.some.injEq, framePaddr, pageFrame, BitVec.toNat_ofNat]
  omega

/-- Through its address in the identity window too. -/
theorem windowTo_identity {cr3 : Nat} (hF : F < lowFrames) :
    WindowTo m cr3 (kp2v (4096 * F)) F := by
  intro m' _ x hx
  rw [kp2v_frame_eq hF]
  simp only [lowFrames] at hF
  have hva : wadd (0xC0000000 + 4096 * F) x = 0xC0000000 + 4096 * F + x := wadd_of_lt (by omega)
  rw [hva, writePaddr, if_pos (by simp only [InIdentityWindow]; omega)]
  simp only [kv2p, wsub, Option.some.injEq]
  omega

/-! ## Where `kmap` has mapped a frame -/

/-- `v` is an address at which `kmap` maps the frame `F`. -/
inductive MappedAt (image : KernelImage) (m : Mem) (F : Nat) : Nat → Prop
  | identity : F < lowFrames → MappedAt image m F (kp2v (4096 * F))
  | slot {i j : Nat} : 992 ≤ i → i < 1024 → j < 1024 →
      m.word (image.tableFrame i) j = mappedWord (4096 * F) → MappedAt image m F (pageIdxVaddr i j 0)

theorem MappedAt.range (h : MappedAt image m F v) : 0xC0000000 ≤ v ∧ v < 4294967296 := by
  cases h with
  | identity hF =>
    rw [kp2v_frame_eq hF]
    simp only [lowFrames] at hF
    omega
  | slot h₀ h₁ hj _ =>
    rw [pageIdxVaddr_eq h₁ hj (by decide)]
    omega

theorem MappedAt.of_sameFrame (h : MappedAt image m F v)
    (hT : ∀ f, KernelTable image f → m.SameFrame m' f) : MappedAt image m' F v := by
  cases h with
  | identity hF => exact .identity hF
  | slot h₀ h₁ hj hword =>
    refine .slot h₀ h₁ hj ?_
    rw [(hT _ ⟨_, by omega, h₁, rfl⟩).word hj]
    exact hword

/-- It is a window to the frame, from every directory with the kernel half. -/
theorem MappedAt.window (h : MappedAt image s.mem F v) (ha : ActiveDirectory image C s)
    (hF : F < 0x100000) (hhigh : 1024 ≤ F) (hFC : F ≠ C) : WindowTo s.mem (4096 * C) v F := by
  obtain ⟨hlow, -, -, -⟩ := image.frames_low (i := 768) (by decide) (by decide)
  cases h with
  | identity hlt => exact windowTo_identity hlt
  | slot h₀ h₁ hj hword =>
    exact windowTo_slot ha.directory ha.shares hF hFC (by omega) (by omega)
      (fun hT => absurd hT.low (by omega)) h₀ h₁ hj hword

/-- Another `kmap` leaves it. -/
theorem MappedAt.kmap (h : MappedAt image m F v) (hk : KernelDirectory m image) (paddr : Nat) :
    MappedAt image (Mm.kmap image.dir m paddr).1 F v := by
  have hresult := kmap_result hk paddr
  generalize Mm.kmap image.dir m paddr = result at hresult
  cases hresult with
  | null => exact h
  | identity => exact h
  | @slot i j hge h₀ h₁ hj hz =>
    cases h with
    | identity hlt => exact .identity hlt
    | @slot i' j' h₀' h₁' hj' hword =>
      refine .slot h₀' h₁' hj' ?_
      rw [KernelImage.slot_eq (by omega) h₁] at hz ⊢
      rw [← Mem.setWord, Mem.word_setWord m hj hj' (mappedWord_lt _)]
      -- the slot was taken, and `kmap` takes one that is zero
      by_cases he : image.tableFrame i' = image.tableFrame i ∧ j' = j
      · rw [he.1, he.2] at hword
        exact absurd (hword.symm.trans hz) (mappedWord_ne_zero _)
      · rw [if_neg he]
        exact hword

/-- What `kmap` returns, but NULL, is where it maps the frame, and only the kernel's tables are
written. -/
theorem KernelDirectory.kmap_mapped (hk : KernelDirectory m image)
    (hne : (Mm.kmap image.dir m (4096 * F)).2 ≠ 0) :
    (∀ f, ¬ KernelTable image f → m.SameFrame (Mm.kmap image.dir m (4096 * F)).1 f) ∧
      MappedAt image (Mm.kmap image.dir m (4096 * F)).1 F (Mm.kmap image.dir m (4096 * F)).2 := by
  have hresult := kmap_result hk (4096 * F)
  generalize Mm.kmap image.dir m (4096 * F) = result at hresult hne
  cases hresult with
  | null => exact absurd rfl hne
  | identity _ hlt =>
    refine ⟨fun f _ => .refl _ f, .identity ?_⟩
    simp only [kernIdentityPhysEnd, lowFrames] at *
    omega
  | @slot i j hge h₀ h₁ hj hz =>
    refine ⟨fun f hf => sameFrame_slot (by omega) h₁ hj hf, ?_⟩
    rw [Nat.mul_mod_right]
    refine .slot h₀ h₁ hj ?_
    rw [KernelImage.slot_eq (by omega) h₁]
    exact Mem.word_setWord_self _ _ _ (mappedWord_lt _)

/-- The loaded directory is not touched where only the kernel's tables are written. -/
theorem ActiveDirectory.of_tables (ha : ActiveDirectory image C s)
    (h : ∀ f, ¬ KernelTable image f → s.mem.SameFrame m f) :
    ActiveDirectory image C { s with mem := m } :=
  ha.of_sameFrame (fun _ hf => hf) (h C ha.apart) (h _ not_kernelTable_dirFrame)
    (h _ not_kernelTable_dirFrame_succ)

/-- What `kmap` of a new frame returns is a window to it, and only the kernel's tables are
written. -/
theorem ActiveDirectory.kmap_window (ha : ActiveDirectory image C s) (hF : F < 0x100000)
    (hfree : s.framemap.test F = false) (hne : (Mm.kmap image.dir s.mem (4096 * F)).2 ≠ 0) :
    (∀ f, ¬ KernelTable image f → s.mem.SameFrame (Mm.kmap image.dir s.mem (4096 * F)).1 f) ∧
      WindowTo (Mm.kmap image.dir s.mem (4096 * F)).1 (4096 * C)
        (Mm.kmap image.dir s.mem (4096 * F)).2 F ∧
      0xC0000000 ≤ (Mm.kmap image.dir s.mem (4096 * F)).2 ∧
      (Mm.kmap image.dir s.mem (4096 * F)).2 < 4294967296 := by
  have hne' : ∀ f, s.framemap.test f = true → F ≠ f := by
    rintro f hf rfl
    rw [hfree] at hf
    cases hf
  have hhigh : 1024 ≤ F := by
    by_contra hlt
    exact hne' F (ha.reserved F (by omega)) rfl
  obtain ⟨hframes, hmapped⟩ := ha.directory.kmap_mapped hne
  exact ⟨hframes, hmapped.window (ha.of_tables hframes) hF hhigh (hne' C ha.used), hmapped.range⟩

end Mapping

/-! ## One page -/

/-- The last two statements of the page loop. -/
def copyEntry (src dest i j paddr : Nat) (m : Mem) : Mem :=
  let m := putPage m (getTable m dest i) j (getPage m (getTable m src i) j)
  putPage m (getTable m dest i) j { getPage m (getTable m dest i) j with
    accessed := false, dirty := false, frame := BitVec.ofNat 20 (paddr / pageSize) }

/-- The entry of the copy of a page, in frame `F`. -/
def copiedPage (p : Page) (F : Nat) : Page :=
  { p with accessed := false, dirty := false, frame := BitVec.ofNat 20 F }

/-- Page `j` of table `i` is copied into frame `F`, which `m₀` maps at `v`. -/
structure PageCopy (image : KernelImage) (C src dest i j F v : Nat) (s s' : Pmm) (m₀ m₁ : Mem) :
    Prop where
  fresh : s.framemap.test F = false
  inside : F < 0x100000
  marked : ∀ f, s'.framemap.test f = (decide (f = F) || s.framemap.test f)
  mapped : ∀ f, ¬ KernelTable image f → s.mem.SameFrame m₀ f
  window : WindowTo m₀ (4096 * C) v F
  copied : memcpy m₀ (4096 * C) v (pageIdxVaddr i j 0) 4096 = some m₁
  unmapped : ∀ f, ¬ KernelTable image f → m₁.SameFrame (kunmap image.dir m₁ v) f
  stored : s'.mem = copyEntry src dest i j (4096 * F) (kunmap image.dir m₁ v)

section Page

variable {image : KernelImage} {m m₀ m₁ : Mem} {s s' : Pmm} {C D T F f src dest i j n v : Nat}

theorem copyEntry_eq (hdest : kv2p dest = 4096 * D) (hT : kv2p (getTable m dest i) = 4096 * T)
    (hDT : D + 1 ≠ T) (hi : i < 1024) (hj : j < 1024) : copyEntry src dest i j (4096 * F) m =
      m.setWord T j (copiedPage (getPage m (getTable m src i) j) F).encode := by
  have htable : ∀ w, getTable (m.setWord T j w) dest i = getTable m dest i := by
    intro w
    rw [getTable_eq hdest, getTable_eq hdest, Mem.word_setWord_of_ne m w hj hi (Or.inl hDT)]
  have hpaddr : 4096 * F / pageSize = F := Nat.mul_div_cancel_left F (by decide)
  unfold copyEntry
  simp only [putPage_eq hT, htable, getPage_eq hT, Mem.word_setWord_self _ _ _ (Page.encode_lt _),
    Page.decode_encode, hpaddr]
  exact Mem.set32_set32_self m _ _ _

theorem clonePageMapped_eq {cr3 paddr : Nat} {kdir : Nat} :
    clonePageMapped kdir cr3 src dest i j paddr v s =
      (memcpy s.mem cr3 v (pageIdxVaddr i j 0) 4096).map fun m =>
        { s with mem := copyEntry src dest i j paddr (kunmap kdir m v) } := by
  unfold clonePageMapped
  simp only [pageSize]
  cases memcpy s.mem cr3 v (pageIdxVaddr i j 0) 4096 with
  | none => rfl
  | some m => rfl

/-- A page with a frame is copied into a new one. -/
theorem ActiveDirectory.clonePage (ha : ActiveDirectory image C s)
    (hframe : (getPage s.mem (getTable s.mem src i) j).frame ≠ 0)
    (h : Mm.clonePage image.dir (4096 * C) src dest i j s = some s') (hok : s'.failed = false) :
    ∃ F m₁, s.allocPages pmmFlagsHighmem 1 = some ({ s with framemap := s'.framemap }, 4096 * F) ∧
      PageCopy image C src dest i j F (Mm.kmap image.dir s.mem (4096 * F)).2 s s'
        (Mm.kmap image.dir s.mem (4096 * F)).1 m₁ := by
  have h0 := ha.reserved 0 (by decide)
  unfold Mm.clonePage at h
  rw [if_pos hframe] at h
  obtain ⟨⟨s₁, paddr⟩, halloc, h₁⟩ := Option.bind_eq_some_iff.1 h
  obtain ⟨-, -, hnew, hs₁⟩ := Pmm.allocPages_highmem h0 halloc
  obtain ⟨F, rfl⟩ : ∃ F, paddr = 4096 * F := ⟨paddr / 4096, by have := hnew.aligned; omega⟩
  have hdiv : 4096 * F / 4096 = F := Nat.mul_div_cancel_left F (by decide)
  have hfresh : s.framemap.test F = false := hnew.free F (by omega) (by omega)
  have hinside : F < 0x100000 := by
    have hin := hnew.inside
    rw [hdiv] at hin
    exact hin
  have hmem : s₁.mem = s.mem := by rw [hs₁]
  dsimp only at h₁
  rw [clonePageMapped_eq] at h₁
  obtain ⟨m₁, hcopy, rfl⟩ := Option.map_eq_some_iff.1 h₁
  simp only [Pmm.kmap, hmem] at hcopy hok
  have hne : (Mm.kmap image.dir s.mem (4096 * F)).2 ≠ 0 := by
    intro hz
    simp [hz] at hok
  obtain ⟨hmapped, hwindow, hlo, hhi⟩ := ha.kmap_window hinside hfresh hne
  have hcopied := memcpy_frame hwindow (Nat.le_refl 4096) hcopy
  have hF : 1024 ≤ F := by
    by_contra hlt
    rw [ha.reserved F (by omega)] at hfresh
    cases hfresh
  obtain ⟨hlow, -, -, -⟩ := image.frames_low (i := 768) (by decide) (by decide)
  have hk₁ : KernelDirectory m₁ image :=
    (ha.directory.of_tables hmapped).of_sameFrame (hcopied _ (by omega)) (hcopied _ (by omega))
  have hsame : s.allocPages pmmFlagsHighmem 1 =
      some ({ s with framemap := s₁.framemap }, 4096 * F) := halloc.trans (by rw [← hs₁])
  refine ⟨F, m₁, hsame, hfresh, hinside, fun f => ?_, hmapped, hwindow, hcopy,
    fun f hf => kunmap_frames hk₁ hlo hhi hf, ?_⟩
  · have hrange := hnew.range.2 f
    have hf : decide (F ≤ f ∧ f < F + 1) = decide (f = F) := decide_eq_decide.2 (by omega)
    rw [hf] at hrange
    exact hrange
  · simp only [Pmm.kmap, hmem]

/-- No other frame that is not free, but those of the kernel's tables, is written. -/
theorem PageCopy.before (hc : PageCopy image C src dest i j F v s s' m₀ m₁) (hF : f ≠ F)
    (hT : ¬ KernelTable image f) : s.mem.SameFrame (kunmap image.dir m₁ v) f :=
  ((hc.mapped f hT).trans (memcpy_frame hc.window (Nat.le_refl _) hc.copied f hF)).trans
    (hc.unmapped f hT)

end Page

/-! ## The page loop -/

/-- Table `T` stands at entry `i` of the directory in frames `D` and `D + 1`, which a clone
fills while the directory in frame `C` is loaded. -/
structure TableSite (image : KernelImage) (C D T i : Nat) (s : Pmm) : Prop where
  active : ActiveDirectory image C s
  used : s.framemap.test T = true
  high : 1024 ≤ T
  low : T < lowFrames
  apart : T ≠ C
  dirUsed : s.framemap.test (D + 1) = true
  dirApart : D + 1 ≠ T
  dirKernel : ¬ KernelTable image (D + 1)
  pointer : s.mem.word (D + 1) i = kp2v (4096 * T)

/-- What was in use stays in use, and stays as it is outside the frames `P` and the kernel's
tables. -/
structure Keeps (image : KernelImage) (P : Nat → Prop) (s s' : Pmm) : Prop where
  used : ∀ f, s.framemap.test f = true → s'.framemap.test f = true
  frames : ∀ f, s.framemap.test f = true → ¬ P f → ¬ KernelTable image f →
    s.mem.SameFrame s'.mem f

section Loops

variable {image : KernelImage} {s s' s'' : Pmm} {C D T K kdir cr3 src dest i j n : Nat}
  {P P' : Nat → Prop}

theorem Keeps.refl (image : KernelImage) (P : Nat → Prop) (s : Pmm) : Keeps image P s s :=
  ⟨fun _ hf => hf, fun f _ _ _ => .refl _ f⟩

theorem Keeps.trans (h : Keeps image P s s') (h' : Keeps image P s' s'') : Keeps image P s s'' :=
  ⟨fun f hf => h'.used f (h.used f hf), fun f hf hP hT =>
    (h.frames f hf hP hT).trans (h'.frames f (h.used f hf) hP hT)⟩

/-- Then frames `P'` are written, none of which was in use before. -/
theorem Keeps.trans_fresh (h : Keeps image P s s') (h' : Keeps image P' s' s'')
    (hP : ∀ f, s.framemap.test f = true → ¬ P' f) : Keeps image P s s'' :=
  ⟨fun f hf => h'.used f (h.used f hf), fun f hf hP₁ hT =>
    (h.frames f hf hP₁ hT).trans (h'.frames f (h.used f hf) (hP f hf) hT)⟩

theorem Keeps.active (h : Keeps image P s s') (ha : ActiveDirectory image C s) (hC : ¬ P C)
    (hK : ¬ P image.dirFrame) (hK' : ¬ P (image.dirFrame + 1)) : ActiveDirectory image C s' := by
  obtain ⟨hlow, -, -, -⟩ := image.frames_low (i := 768) (by decide) (by decide)
  exact ha.of_sameFrame h.used (h.frames C ha.used hC ha.apart)
    (h.frames _ (ha.reserved _ (by omega)) hK not_kernelTable_dirFrame)
    (h.frames _ (ha.reserved _ hlow) hK' not_kernelTable_dirFrame_succ)

theorem TableSite.keeps (ht : TableSite image C D T i s) (h : Keeps image (· = T) s s') (hi : i < 1024) :
    TableSite image C D T i s' := by
  obtain ⟨hlow, -, -, -⟩ := image.frames_low (i := 768) (by decide) (by decide)
  have hhigh := ht.high
  refine ⟨h.active ht.active ht.apart.symm (by omega) (by omega), h.used T ht.used, hhigh, ht.low,
    ht.apart, h.used _ ht.dirUsed, ht.dirApart, ht.dirKernel, ?_⟩
  rw [(h.frames _ ht.dirUsed ht.dirApart ht.dirKernel).word hi]
  exact ht.pointer

/-- What is written last is the page's word in the new table. -/
theorem TableSite.stored {F v : Nat} {m₀ m₁ : Mem} (ht : TableSite image C D T i s)
    (hdest : kv2p dest = 4096 * D) (hi : i < 1024) (hj : j < 1024)
    (hc : PageCopy image C src dest i j F v s s' m₀ m₁) :
    s'.mem = (kunmap image.dir m₁ v).setWord T j (copiedPage (getPage (kunmap image.dir m₁ v)
      (getTable (kunmap image.dir m₁ v) src i) j) F).encode := by
  have hne : D + 1 ≠ F := by
    intro he
    have hfree := hc.fresh
    rw [← he, ht.dirUsed] at hfree
    cases hfree
  have htable : kv2p (getTable (kunmap image.dir m₁ v) dest i) = 4096 * T := by
    rw [getTable_eq hdest, (hc.before hne ht.dirKernel).word hi, ht.pointer]
    exact kv2p_kp2v_frame ht.low
  rw [hc.stored, copyEntry_eq hdest htable ht.dirApart hi hj]

/-- A turn of the page loop writes the table, the new frame and the kernel's tables. -/
theorem TableSite.page (ht : TableSite image C D T i s) (hdest : kv2p dest = 4096 * D) (hi : i < 1024)
    (hj : j < 1024) (h : clonePage image.dir (4096 * C) src dest i j s = some s')
    (hok : s'.failed = false) : Keeps image (· = T) s s' := by
  by_cases hframe : (getPage s.mem (getTable s.mem src i) j).frame = 0
  · unfold clonePage at h
    rw [if_neg (not_not.2 hframe)] at h
    cases h
    exact .refl _ _ _
  · obtain ⟨F, m₁, -, hc⟩ := ht.active.clonePage hframe h hok
    have hother : ∀ f, s.framemap.test f = true → f ≠ F := by
      intro f hf he
      rw [he, hc.fresh] at hf
      cases hf
    refine ⟨fun f hf => by rw [hc.marked, hf]; exact Bool.or_true _, fun f hf hT hK => ?_⟩
    rw [ht.stored hdest hi hj hc]
    exact (hc.before (hother f hf) hK).trans (Mem.sameFrame_setWord _ _ hj hT)

theorem Pmm.Grows.not_failed (h : s.Grows s') (hok : s'.failed = false) : s.failed = false := by
  cases hf : s.failed with
  | false => rfl
  | true =>
    rw [h.failed hf] at hok
    cases hok

theorem clonePagesFrom_eq (j n : Nat) (s : Pmm) : clonePagesFrom kdir cr3 src dest i j n s =
    turns (clonePage kdir cr3 src dest i) j n s := by
  induction n generalizing j s with
  | zero => rfl
  | succ n ih =>
    rw [clonePagesFrom, turns, ← funext (ih (j + 1))]
    rfl

theorem cloneTablesFrom_eq (i n : Nat) (s : Pmm) : cloneTablesFrom kdir cr3 src dest i n s =
    turns (cloneTable kdir cr3 src dest) i n s := by
  induction n generalizing i s with
  | zero => rfl
  | succ n ih =>
    rw [cloneTablesFrom, turns, ← funext (ih (i + 1))]
    rfl

/-- A failure is not forgotten by a turn. -/
theorem clonePage_back (l : Nat) (s s' : Pmm) (h0 : s.framemap.test 0 = true)
    (h : clonePage kdir cr3 src dest i l s = some s') :
    s'.framemap.test 0 = true ∧ (s'.failed = false → s.failed = false) :=
  ⟨(clonePage_grows h0 h).used 0 h0, (clonePage_grows h0 h).not_failed⟩

theorem cloneTable_back (l : Nat) (s s' : Pmm) (h0 : s.framemap.test 0 = true)
    (h : cloneTable kdir cr3 src dest l s = some s') :
    s'.framemap.test 0 = true ∧ (s'.failed = false → s.failed = false) :=
  ⟨(cloneTable_grows h0 h).used 0 h0, (cloneTable_grows h0 h).not_failed⟩

/-- What every turn of a page loop without a failure keeps, holds at its end. -/
theorem clonePagesFrom_rule {Q : Nat → Pmm → Prop} (h0 : s.framemap.test 0 = true)
    (h : clonePagesFrom kdir cr3 src dest i j n s = some s') (hok : s'.failed = false)
    (step : ∀ l t t', j ≤ l → l < j + n → Q l t → clonePage kdir cr3 src dest i l t = some t' →
      t'.failed = false → Q (l + 1) t')
    (hs : Q j s) : Q (j + n) s' := by
  rw [clonePagesFrom_eq] at h
  exact turns_rule clonePage_back h h0 hok step hs

/-- The same for the table loop. -/
theorem cloneTablesFrom_rule {Q : Nat → Pmm → Prop} (h0 : s.framemap.test 0 = true)
    (h : cloneTablesFrom kdir cr3 src dest i n s = some s') (hok : s'.failed = false)
    (step : ∀ l t t', i ≤ l → l < i + n → Q l t → cloneTable kdir cr3 src dest l t = some t' →
      t'.failed = false → Q (l + 1) t')
    (hs : Q i s) : Q (i + n) s' := by
  rw [cloneTablesFrom_eq] at h
  exact turns_rule cloneTable_back h h0 hok step hs

theorem TableSite.pages (ht : TableSite image C D T i s) (hdest : kv2p dest = 4096 * D) (hi : i < 1024)
    (h : clonePagesFrom image.dir (4096 * C) src dest i 0 1024 s = some s') (hok : s'.failed = false) :
    Keeps image (· = T) s s' := by
  have h0 := ht.active.reserved 0 (by decide)
  refine clonePagesFrom_rule (Q := fun _ t => Keeps image (· = T) s t) h0 h hok ?_ (.refl _ _ _)
  intro l t t' _ hl hk hpage hok'
  exact hk.trans ((ht.keeps hk hi).page hdest hi (by omega) hpage hok')

/-! ## The table loop -/

/-- The word of a user entry of the copy. -/
def clonedWord (w T : Nat) : Nat :=
  PageDirEntry.encode { PageDirEntry.decode w with frame := BitVec.ofNat 20 T, accessed := false }

/-- Where a new directory is filled. -/
structure DirSite (image : KernelImage) (C D : Nat) (s : Pmm) : Prop where
  active : ActiveDirectory image C s
  high : 1024 ≤ D
  used : s.framemap.test D = true
  used' : s.framemap.test (D + 1) = true
  apart : C ≠ D
  apart' : C ≠ D + 1

/-- Entry `i` of the copy: the kernel's own, an empty one, or one with a new table. -/
inductive EntryCloned (K D i : Nat) (s s' : Pmm) : Prop
  | kernel : 768 ≤ i → s'.mem.word D i = s.mem.word K i →
      s'.mem.word (D + 1) i = s.mem.word (K + 1) i → EntryCloned K D i s s'
  | empty : i < 768 → (PageDirEntry.decode (s.mem.word K i)).frame = 0 → s' = s → EntryCloned K D i s s'
  | table {T : Nat} : i < 768 → (PageDirEntry.decode (s.mem.word K i)).frame ≠ 0 → T < lowFrames →
      s.framemap.test T = false → s'.framemap.test T = true →
      s'.mem.word D i = clonedWord (s.mem.word K i) T → s'.mem.word (D + 1) i = kp2v (4096 * T) →
      EntryCloned K D i s s'

/-- The directory's frames at the turn for entry `i`. -/
structure EntryTurn (image : KernelImage) (K D i : Nat) (s s' : Pmm) : Prop where
  keeps : Keeps image (fun f => f = D ∨ f = D + 1) s s'
  entries : ∀ l < 1024, l ≠ i → s'.mem.word D l = s.mem.word D l
  pointers : ∀ l < 1024, l ≠ i → s'.mem.word (D + 1) l = s.mem.word (D + 1) l
  cloned : EntryCloned K D i s s'

theorem DirSite.keeps (hd : DirSite image C D s) (h : Keeps image (fun f => f = D ∨ f = D + 1) s s') :
    DirSite image C D s' := by
  obtain ⟨hlow, -, -, -⟩ := image.frames_low (i := 768) (by decide) (by decide)
  have hhigh := hd.high
  have hC := hd.apart
  have hC' := hd.apart'
  exact ⟨h.active hd.active (by omega) (by omega) (by omega), hhigh, h.used D hd.used,
    h.used _ hd.used', hC, hC'⟩

theorem cloneEntry_eq {m : Mem} (hsrc : kv2p src = 4096 * K) (hdest : kv2p dest = 4096 * D)
    (ha : DirectoriesApart K D) (hi : i < 1024) (hT : T < lowFrames) :
    cloneEntry src dest i (4096 * T) m =
      (m.setWord (D + 1) i (kp2v (4096 * T))).setWord D i (clonedWord (m.word K i) T) := by
  have hframe : pageFrame (kv2p (kp2v (4096 * T))) = T := by
    rw [kv2p_kp2v_frame hT]
    exact Nat.mul_div_cancel_left T (by decide)
  have hword : (m.setWord (D + 1) i (kp2v (4096 * T))).word K i = m.word K i :=
    Mem.word_setWord_of_ne m _ hi hi (Or.inl ha.below)
  unfold cloneEntry
  simp only [putTable_eq hdest, putDirEntry_eq hdest, getDirEntry_eq hsrc, getDirEntry_eq hdest, hword,
    hframe, Mem.word_setWord_self _ _ _ (PageDirEntry.encode_lt _), PageDirEntry.decode_encode]
  exact Mem.set32_set32_self _ _ _ _

/-- A turn above 3 GiB copies the two words. -/
theorem cloneTable_kernelEntry (hsrc : kv2p src = 4096 * K)
    (hdest : kv2p dest = 4096 * D) (ha : DirectoriesApart K D) (hkern : 768 ≤ i) (hi : i < 1024)
    (h : cloneTable kdir cr3 src dest i s = some s') : EntryTurn image K D i s s' := by
  have hkeepK : ∀ v, (s.mem.setWord D i v).word (K + 1) i = s.mem.word (K + 1) i :=
    fun v => Mem.word_setWord_of_ne _ _ hi hi (Or.inl ha.above)
  have hw := Mem.word_lt s.mem K i
  have hw' := Mem.word_lt s.mem (K + 1) i
  unfold cloneTable at h
  rw [if_pos hkern] at h
  cases h
  simp only [putDirEntry_eq hdest, getDirEntry_eq hsrc, putTable_eq hdest, getTable_eq hsrc,
    PageDirEntry.encode_decode hw, hkeepK]
  refine ⟨⟨fun _ hf => hf, fun f _ hf _ => ?_⟩, fun l hl hne => ?_, fun l hl hne => ?_,
    .kernel hkern ?_ ?_⟩
  · exact (Mem.sameFrame_setWord _ _ hi (by omega)).trans (Mem.sameFrame_setWord _ _ hi (by omega))
  · rw [Mem.word_setWord_of_ne _ _ hi hl (Or.inl (by omega)),
      Mem.word_setWord_of_ne _ _ hi hl (Or.inr hne)]
  · rw [Mem.word_setWord_of_ne _ _ hi hl (Or.inr hne),
      Mem.word_setWord_of_ne _ _ hi hl (Or.inl (by omega))]
  · rw [Mem.word_setWord_of_ne _ _ hi hi (Or.inl (by omega)), Mem.word_setWord_self _ _ _ hw]
  · exact Mem.word_setWord_self _ _ _ hw'

/-- The entry of the new table `T` is in place, and its pages are still to be copied. -/
structure EntryPlaced (K D T i : Nat) (s s' : Pmm) : Prop where
  framemap : ∀ f, s'.framemap.test f = (decide (f = T) || s.framemap.test f)
  mem : s'.mem = (s.mem.setWord (D + 1) i (kp2v (4096 * T))).setWord D i
    (clonedWord (s.mem.word K i) T)

theorem EntryPlaced.keeps (hp : EntryPlaced K D T i s s') (hi : i < 1024) :
    Keeps image (fun f => f = D ∨ f = D + 1) s s' := by
  refine ⟨fun f hf => by rw [hp.framemap, hf]; exact Bool.or_true _, fun f _ hf _ => ?_⟩
  rw [hp.mem]
  exact (Mem.sameFrame_setWord _ _ hi (by omega)).trans (Mem.sameFrame_setWord _ _ hi (by omega))

theorem EntryPlaced.site (hp : EntryPlaced K D T i s s') (hd : DirSite image C D s) (hi : i < 1024)
    (hfresh : s.framemap.test T = false) (hT : T < lowFrames) : TableSite image C D T i s' := by
  have hd' := hd.keeps (hp.keeps hi)
  have hhigh := hd.high
  have hother : ∀ f, s.framemap.test f = true → f ≠ T := by
    intro f hf he
    rw [he, hfresh] at hf
    cases hf
  have htaken : s'.framemap.test T = true := by
    rw [hp.framemap, decide_eq_true rfl]
    rfl
  have hThigh : 1024 ≤ T := by
    by_contra hlt
    exact hother T (hd.active.reserved T (by omega)) rfl
  refine ⟨hd'.active, htaken, hThigh, hT, (hother C hd.active.used).symm, hd'.used',
    hother _ hd.used', fun hK => absurd hK.low (by omega), ?_⟩
  rw [hp.mem, Mem.word_setWord_of_ne _ _ hi hi (Or.inl (by omega)),
    Mem.word_setWord_self _ _ _ (kp2v_lt _)]

/-- A user entry without a frame is left out. -/
theorem cloneTable_empty (hsrc : kv2p src = 4096 * K) (huser : i < 768)
    (hframe : (PageDirEntry.decode (s.mem.word K i)).frame = 0)
    (h : cloneTable kdir cr3 src dest i s = some s') : s = s' := by
  unfold cloneTable at h
  rw [if_neg (by simp only [kernStartTbl]; omega), getDirEntry_eq hsrc,
    if_neg (not_not.2 hframe)] at h
  exact Option.some.inj h

/-- The body of the table loop, for a user entry with a frame, once a table is found. -/
theorem cloneTable_eq {paddr : Nat} {framemap : FrameMap} (hsrc : kv2p src = 4096 * K)
    (huser : i < 768) (hframe : (PageDirEntry.decode (s.mem.word K i)).frame ≠ 0)
    (halloc : Mm.allocPages s.framemap pmmFlagsDefault 1 = some (paddr, framemap)) :
    cloneTable kdir cr3 src dest i s = clonePagesFrom kdir cr3 src dest i 0 1024
      ⟨cloneEntry src dest i paddr s.mem, framemap, s.failed || paddr == 0⟩ := by
  unfold cloneTable
  rw [if_neg (by simp only [kernStartTbl]; omega), getDirEntry_eq hsrc, if_pos hframe,
    Pmm.allocPages_of_eq_some halloc, Option.bind_eq_bind, Option.bind_some]

theorem EntryPlaced.of_alloc {paddr : Nat} {framemap : FrameMap} (h0 : s.framemap.test 0 = true)
    (hsrc : kv2p src = 4096 * K) (hdest : kv2p dest = 4096 * D) (ha : DirectoriesApart K D)
    (hi : i < 1024)
    (halloc : Mm.allocPages s.framemap pmmFlagsDefault 1 = some (paddr, framemap)) (hne : paddr ≠ 0)
    (failed : Bool) : ∃ T, paddr = 4096 * T ∧ T < lowFrames ∧ s.framemap.test T = false ∧
      EntryPlaced K D T i s ⟨cloneEntry src dest i paddr s.mem, framemap, failed⟩ := by
  obtain ⟨-, ⟨hz, -, -⟩ | ⟨T, rfl, -, hT, hnew, -⟩⟩ :=
    Pmm.allocPages_low h0 (by decide) (Pmm.allocPages_of_eq_some halloc)
  · exact absurd hz hne
  · refine ⟨T, rfl, hT, hnew.range.1 T (Nat.le_refl T) (Nat.lt_succ_self T), fun f => ?_,
      cloneEntry_eq hsrc hdest ha hi hT⟩
    have hf : decide (T ≤ f ∧ f < T + 1) = decide (f = T) := decide_eq_decide.2 (by omega)
    rw [← hf]
    exact hnew.range.2 f

/-- A user entry with a frame gets a table of its own. -/
theorem DirSite.userEntry (hd : DirSite image C D s) (hsrc : kv2p src = 4096 * K)
    (hdest : kv2p dest = 4096 * D) (ha : DirectoriesApart K D) (huser : i < 768)
    (hframe : (PageDirEntry.decode (s.mem.word K i)).frame ≠ 0)
    (h : cloneTable image.dir (4096 * C) src dest i s = some s') (hok : s'.failed = false) :
    ∃ T s₁, T < lowFrames ∧ s.framemap.test T = false ∧ EntryPlaced K D T i s s₁ ∧
      clonePagesFrom image.dir (4096 * C) src dest i 0 1024 s₁ = some s' ∧
      Mm.allocPages s.framemap pmmFlagsDefault 1 = some (4096 * T, s₁.framemap) ∧
      s₁.failed = s.failed := by
  have h0 := hd.active.reserved 0 (by decide)
  cases halloc : Mm.allocPages s.framemap pmmFlagsDefault 1 with
  | none =>
    unfold cloneTable at h
    rw [if_neg (by simp only [kernStartTbl]; omega), getDirEntry_eq hsrc, if_pos hframe,
      Pmm.allocPages_eq_none.2 halloc] at h
    cases h
  | some new =>
    obtain ⟨paddr, framemap⟩ := new
    rw [cloneTable_eq hsrc huser hframe halloc] at h
    have hused := (Pmm.allocPages_grows h0 (Pmm.allocPages_of_eq_some halloc)).used 0 h0
    have hok₁ := (clonePagesFrom_grows
      (s := ⟨cloneEntry src dest i paddr s.mem, framemap, s.failed || paddr == 0⟩)
      hused h).not_failed hok
    dsimp only at hok₁
    have hne := hok₁
    rw [Bool.or_eq_false_iff, beq_eq_false_iff_ne] at hne
    obtain ⟨T, rfl, hT, hfresh, hplaced⟩ :=
      EntryPlaced.of_alloc h0 hsrc hdest ha (show i < 1024 by omega) halloc hne.2
        (s.failed || paddr == 0)
    exact ⟨T, _, hT, hfresh, hplaced, h, rfl, hok₁.trans hne.1.symm⟩

/-- The entry of the new table `T` is in place, and so are its pages. -/
structure EntryFilled (image : KernelImage) (K D T i : Nat) (s s' : Pmm) : Prop where
  keeps : Keeps image (fun f => f = D ∨ f = D + 1) s s'
  used : s'.framemap.test T = true
  entries : ∀ l < 1024, l ≠ i → s'.mem.word D l = s.mem.word D l
  pointers : ∀ l < 1024, l ≠ i → s'.mem.word (D + 1) l = s.mem.word (D + 1) l
  entry : s'.mem.word D i = clonedWord (s.mem.word K i) T
  pointer : s'.mem.word (D + 1) i = kp2v (4096 * T)

theorem EntryPlaced.filled {s₁ : Pmm} (hplaced : EntryPlaced K D T i s s₁)
    (hd : DirSite image C D s) (hdest : kv2p dest = 4096 * D) (hi : i < 1024)
    (hfresh : s.framemap.test T = false) (hT : T < lowFrames)
    (hpages : clonePagesFrom image.dir (4096 * C) src dest i 0 1024 s₁ = some s')
    (hok : s'.failed = false) : EntryFilled image K D T i s s' := by
  have hsite := hplaced.site hd hi hfresh hT
  have hkeep₁ : Keeps image (fun f => f = D ∨ f = D + 1) s s₁ := hplaced.keeps hi
  have hkeep := hsite.pages hdest hi hpages hok
  have hhigh := hd.high
  have hother : ∀ f, s.framemap.test f = true → f ≠ T := by
    intro f hf he
    rw [he, hfresh] at hf
    cases hf
  have hD : s₁.mem.SameFrame s'.mem D := hkeep.frames D (hkeep₁.used D hd.used)
    (hother D hd.used) fun hK => absurd hK.low (by omega)
  have hD' : s₁.mem.SameFrame s'.mem (D + 1) := hkeep.frames _ (hkeep₁.used _ hd.used')
    (hother _ hd.used') fun hK => absurd hK.low (by omega)
  refine ⟨hkeep₁.trans_fresh hkeep fun f hf => hother f hf, hkeep.used T hsite.used,
    fun l hl hne => ?_, fun l hl hne => ?_, ?_, ?_⟩
  · rw [hD.word hl, hplaced.mem, Mem.word_setWord_of_ne _ _ hi hl (Or.inr hne),
      Mem.word_setWord_of_ne _ _ hi hl (Or.inl (by omega))]
  · rw [hD'.word hl, hplaced.mem, Mem.word_setWord_of_ne _ _ hi hl (Or.inl (by omega)),
      Mem.word_setWord_of_ne _ _ hi hl (Or.inr hne)]
  · rw [hD.word hi, hplaced.mem]
    exact Mem.word_setWord_self _ _ _ (PageDirEntry.encode_lt _)
  · rw [hD'.word hi, hsite.pointer]

/-- A turn of the table loop. -/
theorem DirSite.table (hd : DirSite image C D s) (hsrc : kv2p src = 4096 * K)
    (hdest : kv2p dest = 4096 * D) (ha : DirectoriesApart K D) (hi : i < 1024)
    (h : cloneTable image.dir (4096 * C) src dest i s = some s') (hok : s'.failed = false) :
    EntryTurn image K D i s s' := by
  by_cases hkern : 768 ≤ i
  · exact cloneTable_kernelEntry hsrc hdest ha hkern hi h
  by_cases hframe : (PageDirEntry.decode (s.mem.word K i)).frame = 0
  · obtain rfl := cloneTable_empty hsrc (by omega) hframe h
    exact ⟨.refl _ _ _, fun _ _ _ => rfl, fun _ _ _ => rfl, .empty (by omega) hframe rfl⟩
  · obtain ⟨T, s₁, hT, hfresh, hplaced, hpages, -⟩ :=
      hd.userEntry hsrc hdest ha (by omega) hframe h hok
    have hfilled := hplaced.filled hd hdest hi hfresh hT hpages hok
    exact ⟨hfilled.keeps, hfilled.entries, hfilled.pointers,
      .table (by omega) hframe hT hfresh hfilled.used hfilled.entry hfilled.pointer⟩

/-! ## The whole clone -/

/-- Where a directory is cloned from. -/
structure SourceDirectory (image : KernelImage) (K D : Nat) (s : Pmm) : Prop where
  apart : DirectoriesApart K D
  used : s.framemap.test K = true
  used' : s.framemap.test (K + 1) = true
  notTable : ¬ KernelTable image K
  notTable' : ¬ KernelTable image (K + 1)

/-- An entry of the clone below 3 GiB: there is none, or it names a table that was free. -/
def UserEntryCloned (K D i : Nat) (s s' : Pmm) : Prop :=
  s'.mem.word D i = 0 ∨ ∃ T < lowFrames, s.framemap.test T = false ∧ s'.framemap.test T = true ∧
    s'.mem.word D i = clonedWord (s.mem.word K i) T ∧ s'.mem.word (D + 1) i = kp2v (4096 * T)

/-- The directory in frame `D` is a clone of the one in frame `K`. -/
structure Cloned (image : KernelImage) (K D : Nat) (s s' : Pmm) : Prop where
  keeps : Keeps image (fun f => f = D ∨ f = D + 1) s s'
  kernelHalf : ∀ i, 768 ≤ i → i < 1024 → s'.mem.word D i = s.mem.word K i ∧
    s'.mem.word (D + 1) i = s.mem.word (K + 1) i
  userHalf : ∀ i < 768, UserEntryCloned K D i s s'

/-- The first `n` entries are those of a clone, and the others are still zero. -/
structure ClonedUpTo (image : KernelImage) (K D n : Nat) (s s' : Pmm) : Prop where
  keeps : Keeps image (fun f => f = D ∨ f = D + 1) s s'
  kernelHalf : ∀ i < n, 768 ≤ i → s'.mem.word D i = s.mem.word K i ∧
    s'.mem.word (D + 1) i = s.mem.word (K + 1) i
  userHalf : ∀ i < n, i < 768 → UserEntryCloned K D i s s'
  rest : ∀ i < 1024, n ≤ i → s'.mem.word D i = 0

theorem SourceDirectory.kept (hs : SourceDirectory image K D s)
    (h : Keeps image (fun f => f = D ∨ f = D + 1) s s') :
    s.mem.SameFrame s'.mem K ∧ s.mem.SameFrame s'.mem (K + 1) := by
  obtain ⟨h₁, h₂, h₃⟩ := hs.apart
  exact ⟨h.frames K hs.used (by omega) hs.notTable, h.frames _ hs.used' (by omega) hs.notTable'⟩

theorem ClonedUpTo.turn (hc : ClonedUpTo image K D i s s') (hs : SourceDirectory image K D s)
    (hi : i < 1024) (ht : EntryTurn image K D i s' s'') : ClonedUpTo image K D (i + 1) s s'' := by
  obtain ⟨hK, hK'⟩ := hs.kept hc.keeps
  refine ⟨hc.keeps.trans ht.keeps, fun l hl hkern => ?_, fun l hl huser => ?_, fun l hl hrest => ?_⟩
  · by_cases he : l = i
    · subst he
      cases ht.cloned with
      | kernel _ hentry hpointer => rw [hentry, hpointer, hK.word hi, hK'.word hi]; exact ⟨rfl, rfl⟩
      | empty huser _ _ => omega
      | table huser _ _ _ _ _ _ => omega
    · rw [ht.entries l (by omega) he, ht.pointers l (by omega) he]
      exact hc.kernelHalf l (by omega) hkern
  · by_cases he : l = i
    · subst he
      cases ht.cloned with
      | kernel hkern _ _ => omega
      | empty _ _ hsame =>
        rw [hsame]
        exact Or.inl (hc.rest l hi (Nat.le_refl l))
      | @table T _ _ hT hfresh hused hentry hpointer =>
        rw [hK.word hi] at hentry
        refine Or.inr ⟨T, hT, ?_, hused, hentry, hpointer⟩
        cases hf : s.framemap.test T with
        | false => rfl
        | true =>
          rw [hc.keeps.used T hf] at hfresh
          cases hfresh
    · unfold UserEntryCloned
      rw [ht.entries l (by omega) he, ht.pointers l (by omega) he]
      rcases hc.userHalf l (by omega) huser with hz | ⟨T, hT, hfresh, hused, hrest⟩
      · exact Or.inl hz
      · exact Or.inr ⟨T, hT, hfresh, ht.keeps.used T hused, hrest⟩
  · rw [ht.entries l hl (by omega)]
    exact hc.rest l hl (by omega)

/-- A clone without a failure, into a directory of zeros, whatever directory with the kernel
half is loaded. -/
theorem DirSite.clone (hd : DirSite image C D s) (hsrc : kv2p src = 4096 * K)
    (hdest : kv2p dest = 4096 * D) (hs : SourceDirectory image K D s)
    (hzero : ∀ i < 1024, s.mem.word D i = 0)
    (h : clonePageDir image.dir (4096 * C) src dest s = some s') (hok : s'.failed = false) :
    Cloned image K D s s' := by
  have hend := cloneTablesFrom_rule (Q := fun n t => ClonedUpTo image K D n s t)
    (hd.active.reserved 0 (by decide)) h hok ?_ ?_
  · exact ⟨hend.keeps, fun i h₀ h₁ => hend.kernelHalf i (by omega) h₀,
      fun i hi => hend.userHalf i (by omega) hi⟩
  · intro l t t' _ hl hc hturn hok'
    exact hc.turn hs (by omega) ((hd.keeps hc.keeps).table hsrc hdest hs.apart (by omega) hturn hok')
  · exact ⟨.refl _ _ _, fun i hi => absurd hi (Nat.not_lt_zero i),
      fun i hi => absurd hi (Nat.not_lt_zero i), fun i hi _ => hzero i hi⟩

end Loops

end BrownieOS.Mm
