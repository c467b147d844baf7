import BrownieOS.Mm.Directories

/-!
# Entries that keep user mode out

Bit 2 of an entry lets user mode in, in a directory as in a table. The image's directory and
tables are loaded as zeros, and `setup_kernel_directory` and `kmap` never set the bit there.
-/
namespace BrownieOS.Mm

open BrownieOS.Lib BrownieOS.Lib.Word32

/-- No entry of the frame lets user mode in. -/
def NoUser (m : Mem) (f : Nat) : Prop := ∀ i < 1024, (m.word f i).testBit 2 = false

/-- The frames of the kernel's directory and tables that hold entries. -/
def KernelEntries (image : KernelImage) (f : Nat) : Prop :=
  f = image.dirFrame ∨ ∃ i, 768 ≤ i ∧ i < 1024 ∧ f = image.tableFrame i

/-- Memory after `setup_kernel_directory`, the BSS of the image all zeros before it. -/
def LoadedMemory (image : KernelImage) (m : Mem) : Prop :=
  ∃ m₀ : Mem, (∀ f, KernelEntries image f → Mem.SameFrame (fun _ => 0) m₀ f) ∧
    m = setupKernelDirectory image m₀

section NoUser

variable {image : KernelImage} {m m' : Mem} {f f' i j n v : Nat}

theorem Page.testBit_encode (p : Page) : p.encode.testBit 2 = p.user :=
  congrArg Page.user p.decode_encode

theorem PageDirEntry.testBit_encode (e : PageDirEntry) : e.encode.testBit 2 = e.user :=
  congrArg PageDirEntry.user e.decode_encode

theorem NoUser.of_sameFrame (h : NoUser m f) (hm : m.SameFrame m' f) : NoUser m' f := by
  intro i hi
  rw [hm.word hi]
  exact h i hi

theorem NoUser.setWord (h : NoUser m f) (hj : j < 1024) (hv : v < 4294967296)
    (hbit : f = f' → v.testBit 2 = false) : NoUser (m.setWord f' j v) f := by
  intro i hi
  rw [Mem.word_setWord m hj hi hv]
  split
  · rename_i hself
    exact hbit hself.1
  · exact h i hi

theorem NoUser.putPage {table T : Nat} (h : NoUser m f) (ht : kv2p table = 4096 * T) (hj : j < 1024)
    {p : Page} (hp : p.user = false) : NoUser (putPage m table j p) f := by
  rw [putPage_eq ht]
  exact h.setWord hj p.encode_lt fun _ => p.testBit_encode.trans hp

theorem NoUser.setPage {table T frame : Nat} {present rw : Bool} (h : NoUser m f)
    (ht : kv2p table = 4096 * T) (hj : j < 1024) :
    NoUser (setPage m table j frame present rw false) f := h.putPage ht hj rfl

theorem NoUser.setupPages (h₀ : 768 ≤ i) (h₁ : i < 1024)
    (hm : ∀ f, KernelEntries image f → NoUser m f) (hn : n ≤ 1024) :
    ∀ f, KernelEntries image f → NoUser (setupPages m (image.table i) i n) f := by
  induction n with
  | zero => exact hm
  | succ n ih =>
    intro f hf
    have hbefore := ih (by omega)
    have ht := image.kv2p_table i h₀ h₁
    have hself := hbefore _ (Or.inr ⟨i, h₀, h₁, rfl⟩) n (by omega)
    rw [Mm.setupPages]
    split
    · refine (hbefore f hf).putPage ht (by omega) ?_
      rw [getPage_eq ht]
      exact hself
    · exact hbefore f hf

theorem NoUser.setupTables (hm : ∀ f, KernelEntries image f → NoUser m f) (hn : n ≤ 256) :
    ∀ f, KernelEntries image f → NoUser (setupTables image m n) f := by
  induction n with
  | zero => exact hm
  | succ n ih =>
    have hbefore := ih (by omega)
    have hi : 768 + n < 1024 := by omega
    refine NoUser.setupPages (by simp only [kernStartTbl]; omega) hi ?_ (Nat.le_refl _)
    intro f hf
    have hoff : f ≠ image.dirFrame + 1 := by
      rcases hf with rfl | ⟨l, h₀, h₁, rfl⟩
      · omega
      · exact (image.frames_low h₀ h₁).2.2.2
    have hptr : ∀ f, f ≠ image.dirFrame + 1 → KernelEntries image f → NoUser (putTable
        (Mm.setupTables image m n) image.dir (768 + n) (image.table (768 + n))) f := by
      intro f hne hf
      rw [putTable_eq image.kv2p_dir]
      exact (hbefore f hf).of_sameFrame (Mem.sameFrame_setWord _ _ hi hne)
    have hself := hptr image.dirFrame (by omega) (Or.inl rfl) _ hi
    rw [putDirEntry_eq image.kv2p_dir]
    refine (hptr f hoff hf).setWord hi (PageDirEntry.encode_lt _) fun _ => ?_
    rw [PageDirEntry.testBit_encode, getDirEntry_eq image.kv2p_dir]
    exact hself

theorem LoadedMemory.noUser (h : LoadedMemory image m) (hf : KernelEntries image f) : NoUser m f := by
  obtain ⟨m₀, hzero, hm⟩ := h
  have hclear : ∀ f, KernelEntries image f → NoUser m₀ f := by
    intro f hf i hi
    have hword : Mem.word (fun _ => 0) f i = 0 := rfl
    rw [(hzero f hf).word hi, hword]
    exact Nat.zero_testBit 2
  rw [hm]
  exact NoUser.setupTables hclear (Nat.le_refl 256) f hf

end NoUser

end BrownieOS.Mm
