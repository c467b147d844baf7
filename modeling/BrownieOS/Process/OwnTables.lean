import BrownieOS.Mm.CloneFrames
import BrownieOS.Process.MapExact
import BrownieOS.Process.Space

/-!
# Every directory its own tables

Below 3 GiB no two directories share a table, and no table is a directory. Above it all of
them name the kernel's tables. Making a directory and mapping pages into one keep this, so
pages mapped below 3 GiB change nothing for another directory.
-/
namespace BrownieOS.Process

open BrownieOS.Lib BrownieOS.Lib.Word32 BrownieOS.Mm

/-- `T` is a table of the directory `D`, for addresses below 3 GiB. -/
def UserTable (m : Mem) (D T : Nat) : Prop :=
  ∃ i < 768, (PageDirEntry.decode (m.word D i)).present = true ∧
    (PageDirEntry.decode (m.word D i)).frame.toNat = T

/-- Above 3 GiB the directory `D` names the kernel's tables, and lets user mode in only at
the entries `U`. -/
structure KernelHalf (image : KernelImage) (D : Nat) (U : Nat → Prop) (m : Mem) : Prop where
  present : ∀ i, 768 ≤ i → i < 1024 → (PageDirEntry.decode (m.word D i)).present = true
  frame : ∀ i, 768 ≤ i → i < 1024 →
    (PageDirEntry.decode (m.word D i)).frame.toNat = image.tableFrame i
  user : ∀ i, 768 ≤ i → i < 1024 → (PageDirEntry.decode (m.word D i)).user = true → U i

/-- The directories of `Ds` have tables of their own. Those of `Opened` may let user mode in
above 3 GiB; the kernel's own directory does not. -/
structure OwnTables (image : KernelImage) (s : Pmm) (Ds Opened : Nat → Prop) : Prop where
  kernel : KernelSpace image s
  closed : ∀ i, 768 ≤ i → i < 1024 → (PageDirEntry.decode (s.mem.word image.dirFrame i)).user = false
  directory : ∀ D, Ds D → ProcessDirectory s (kp2v (4096 * D)) D
  place : ∀ D, Ds D → D = 0 ∨ 1024 ≤ D
  apart : ∀ D D', Ds D → Ds D' → D ≠ D' → DirectoriesApart D D'
  kernelHalf : ∀ D, Ds D → KernelHalf image D (fun _ => Opened D) s.mem
  tables : ∀ D, Ds D → ∀ T, UserTable s.mem D T → 1024 ≤ T ∧ s.framemap.test T = true ∧
    ∀ D', Ds D' → T ≠ D' ∧ T ≠ D' + 1
  unshared : ∀ D D', Ds D → Ds D' → D ≠ D' → ∀ T, UserTable s.mem D T → ¬ UserTable s.mem D' T

/-- The frames that mapping pages of the entries `I` into the directory `D` may write, apart
from the directory: a free one, a table it has, and the kernel's if an entry of its half is
among them. -/
def MapFrames (image : KernelImage) (s : Pmm) (D : Nat) (I : Nat → Prop) (T : Nat) : Prop :=
  s.framemap.test T = false ∨ UserTable s.mem D T ∨ ∃ i, 768 ≤ i ∧ i < 1024 ∧ I i ∧ T = image.tableFrame i

section OwnTables

variable {image : KernelImage} {s s' t t' : Pmm} {m m' : Mem} {Ds Opened I U : Nat → Prop}
  {dir D D' T i j va virt phys pages : Nat} {w ok : Bool}

theorem UserTable.of_words (h : ∀ i < 768, m'.word D i = m.word D i) (hT : UserTable m' D T) :
    UserTable m D T := by
  obtain ⟨i, hi, hp, hframe⟩ := hT
  rw [h i hi] at hp hframe
  exact ⟨i, hi, hp, hframe⟩

theorem UserTable.of_sameFrame (h : m.SameFrame m' D) (hT : UserTable m' D T) : UserTable m D T :=
  hT.of_words fun _ hi => h.word (by omega)

theorem KernelHalf.of_sameFrame (hk : KernelHalf image D U m) (h : m.SameFrame m' D) :
    KernelHalf image D U m' := by
  constructor
  · intro i h₀ h₁
    rw [h.word h₁]
    exact hk.present i h₀ h₁
  · intro i h₀ h₁
    rw [h.word h₁]
    exact hk.frame i h₀ h₁
  · intro i h₀ h₁
    rw [h.word h₁]
    exact hk.user i h₀ h₁

theorem ProcessDirectory.of_sameFrame (hd : ProcessDirectory s dir D)
    (hused : ∀ f, s.framemap.test f = true → s'.framemap.test f = true)
    (hD : s.mem.SameFrame s'.mem D) (hD' : s.mem.SameFrame s'.mem (D + 1)) :
    ProcessDirectory s' dir D := by
  refine ⟨hd.pointer, hused D hd.used, hused _ hd.used',
    (hd.mirrored.of_sameFrame hD hD').mono (fun _ h => h) fun T hT => ⟨hT.1, hused T hT.2⟩, ?_⟩
  intro i hi i' hi'
  rw [hD.word hi, hD.word hi']
  exact hd.unshared i hi i' hi'

/-- Where the frames of all directories stay, all stays. -/
theorem OwnTables.of_sameFrame (ho : OwnTables image s Ds Opened)
    (hused : ∀ f, s.framemap.test f = true → s'.framemap.test f = true)
    (hK : s.mem.SameFrame s'.mem image.dirFrame) (hK' : s.mem.SameFrame s'.mem (image.dirFrame + 1))
    (hsame : ∀ D, Ds D → s.mem.SameFrame s'.mem D ∧ s.mem.SameFrame s'.mem (D + 1)) :
    OwnTables image s' Ds Opened := by
  constructor
  · exact ho.kernel.of_sameFrame hused hK hK'
  · intro i h₀ h₁
    rw [hK.word h₁]
    exact ho.closed i h₀ h₁
  · exact fun D hD => (ho.directory D hD).of_sameFrame hused (hsame D hD).1 (hsame D hD).2
  · exact ho.place
  · exact ho.apart
  · exact fun D hD => (ho.kernelHalf D hD).of_sameFrame (hsame D hD).1
  · intro D hD T hT
    obtain ⟨h₁, h₂, h₃⟩ := ho.tables D hD T (hT.of_sameFrame (hsame D hD).1)
    exact ⟨h₁, hused T h₂, h₃⟩
  · intro D D' hD hD' hne T hT hT'
    exact ho.unshared D D' hD hD' hne T (hT.of_sameFrame (hsame D hD).1)
      (hT'.of_sameFrame (hsame D' hD').1)

/-! ## A new directory -/

theorem KernelSpace.entry_frame (hk : KernelSpace image s) (h₀ : 768 ≤ i) (h₁ : i < 1024) :
    (PageDirEntry.decode (s.mem.word image.dirFrame i)).frame.toNat = image.tableFrame i := by
  have hframe := hk.directory.frame i h₀ h₁
  have htable := image.kv2p_table i h₀ h₁
  rw [getDirEntry_eq image.kv2p_dir] at hframe
  simp only [framePaddr, KernelImage.tablePaddr] at hframe
  omega

/-- The kernel's half as a new directory gets it. -/
theorem NewDirectory.kernelHalf (hk : KernelSpace image s) (hn : NewDirectory image D s s')
    (hclosed : ∀ i, 768 ≤ i → i < 1024 →
      (PageDirEntry.decode (s.mem.word image.dirFrame i)).user = false) :
    KernelHalf image D U s'.mem := by
  constructor
  · intro i h₀ h₁
    have hp := hk.directory.present i h₀ h₁
    rw [getDirEntry_eq image.kv2p_dir] at hp
    rw [hn.entries i h₁, if_pos h₀]
    exact hp
  · intro i h₀ h₁
    rw [hn.entries i h₁, if_pos h₀]
    exact hk.entry_frame h₀ h₁
  · intro i h₀ h₁ hu
    rw [hn.entries i h₁, if_pos h₀, hclosed i h₀ h₁] at hu
    cases hu

/-- A new directory is one of a process: its tables are the kernel's, each in its own entry. -/
theorem NewDirectory.processDirectory (hk : KernelSpace image s) (hl : image.Linked)
    (hn : NewDirectory image D s s') (hptr : kv2p dir = 4096 * D) : ProcessDirectory s' dir D := by
  have hown := hn.own hk hl
  refine ⟨hptr, hown.used, hown.used', ?_, ?_⟩
  · intro i hi hI hp
    obtain ⟨T, hT, ⟨hPT, hused⟩, hpointer, hframe⟩ := hown.mirrored i hi hI hp
    refine ⟨T, hT, ⟨⟨?_, ?_⟩, hused⟩, hpointer, hframe⟩
    · rintro rfl
      exact hown.apart hPT
    · rintro rfl
      exact hown.apart' hPT
  · have hkernel : ∀ i < 1024, (PageDirEntry.decode (s'.mem.word D i)).present = true → 768 ≤ i ∧
        (PageDirEntry.decode (s'.mem.word D i)).frame.toNat = image.tableFrame i := by
      intro i hi hp
      rw [hn.entries i hi] at hp ⊢
      by_cases hkern : 768 ≤ i
      · rw [if_pos hkern]
        exact ⟨hkern, hk.entry_frame hkern hi⟩
      · rw [if_neg hkern] at hp
        cases hp
    intro i hi i' hi' hp hp' hframe
    obtain ⟨h₀, hf⟩ := hkernel i hi hp
    obtain ⟨h₀', hf'⟩ := hkernel i' hi' hp'
    exact image.tableFrame_inj h₀ hi h₀' hi' (by rw [← hf, ← hf', hframe])

/-- It has no table yet. -/
theorem NewDirectory.not_userTable (hn : NewDirectory image D s s') : ¬ UserTable s'.mem D T := by
  rintro ⟨i, hi, hp, -⟩
  rw [hn.entries i (by omega), if_neg (by omega)] at hp
  cases hp

/-- Directories there are are apart from a new one, unless it is made anew at frame 0. -/
theorem OwnTables.new_apart (ho : OwnTables image s Ds Opened) (hn : NewDirectory image D s s')
    (hD' : Ds D') (hne : D' ≠ D) : DirectoriesApart D' D ∧ DirectoriesApart D D' := by
  have hd := ho.directory D' hD'
  have hp := ho.place D' hD'
  have hfree : ∀ f f', s.framemap.test f = true → s.framemap.test f' = false → f ≠ f' := by
    rintro f f' hf hf' rfl
    rw [hf] at hf'
    cases hf'
  rcases hn.fresh with rfl | ⟨h₁, h₂⟩
  · exact ⟨⟨by omega, by omega, by omega⟩, ⟨by omega, by omega, by omega⟩⟩
  · have h₃ := hfree _ _ hd.used h₂
    have h₄ := hfree _ _ hd.used' h₁
    exact ⟨⟨hne, h₃, h₄⟩, ⟨hne.symm, h₄.symm, h₃.symm⟩⟩

theorem OwnTables.newDirectory (ho : OwnTables image s Ds Opened) (hl : image.Linked)
    (hn : NewDirectory image D s s') : OwnTables image s' (fun D' => D' = D ∨ Ds D') Opened := by
  obtain ⟨⟨hK, hK', hK''⟩, -⟩ := ho.kernel.apart hl hn.fresh
  have hplace : D = 0 ∨ 1024 ≤ D := by
    rcases hn.fresh with hz | ⟨hfree, -⟩
    · exact Or.inl hz
    · right
      by_contra hlt
      rw [ho.kernel.reserved D (by omega)] at hfree
      cases hfree
  have hsameK := hn.others _ hK hK'
  have hsameK' := hn.others _ hK'' (show image.dirFrame + 1 ≠ D + 1 by omega)
  have hsame : ∀ D', Ds D' → D' ≠ D →
      s.mem.SameFrame s'.mem D' ∧ s.mem.SameFrame s'.mem (D' + 1) := by
    intro D' hD' hne
    obtain ⟨⟨h₁, h₂, h₃⟩, -⟩ := ho.new_apart hn hD' hne
    exact ⟨hn.others _ h₁ h₂, hn.others _ h₃ (by omega)⟩
  have htable : ∀ D', Ds D' → D' ≠ D → ∀ T, UserTable s'.mem D' T → 1024 ≤ T ∧
      s.framemap.test T = true ∧ (∀ D'', Ds D'' → T ≠ D'' ∧ T ≠ D'' + 1) ∧ T ≠ D ∧ T ≠ D + 1 := by
    intro D' hD' hne T hT
    obtain ⟨h₁, h₂, h₃⟩ := ho.tables D' hD' T (hT.of_sameFrame (hsame D' hD' hne).1)
    refine ⟨h₁, h₂, h₃, ?_⟩
    rcases hn.fresh with rfl | ⟨hf, hf'⟩
    · omega
    · constructor
      · intro he
        rw [he, hf] at h₂
        cases h₂
      · intro he
        rw [he, hf'] at h₂
        cases h₂
  constructor
  · exact ho.kernel.of_sameFrame hn.grows hsameK hsameK'
  · intro i h₀ h₁
    rw [hsameK.word h₁]
    exact ho.closed i h₀ h₁
  · rintro D' hD'
    by_cases hne : D' = D
    · rw [hne]
      exact hn.processDirectory ho.kernel hl (kv2p_kp2v_frame (by have := hn.low; omega))
    · have hold := hD'.resolve_left hne
      exact (ho.directory D' hold).of_sameFrame hn.grows (hsame D' hold hne).1 (hsame D' hold hne).2
  · rintro D' (rfl | hD')
    · exact hplace
    · exact ho.place D' hD'
  · intro D₁ D₂ h₁ h₂ hne
    by_cases he₁ : D₁ = D
    · rw [he₁]
      exact (ho.new_apart hn (h₂.resolve_left (he₁ ▸ hne.symm)) (he₁ ▸ hne.symm)).2
    · by_cases he₂ : D₂ = D
      · rw [he₂]
        exact (ho.new_apart hn (h₁.resolve_left he₁) he₁).1
      · exact ho.apart D₁ D₂ (h₁.resolve_left he₁) (h₂.resolve_left he₂) hne
  · intro D' hD'
    by_cases hne : D' = D
    · rw [hne]
      exact hn.kernelHalf ho.kernel ho.closed
    · have hold := hD'.resolve_left hne
      exact (ho.kernelHalf D' hold).of_sameFrame (hsame D' hold hne).1
  · intro D' hD' T hT
    by_cases hne : D' = D
    · rw [hne] at hT
      exact absurd hT hn.not_userTable
    · obtain ⟨h₁, h₂, h₃, h₄⟩ := htable D' (hD'.resolve_left hne) hne T hT
      refine ⟨h₁, hn.grows T h₂, ?_⟩
      rintro D'' (rfl | hD'')
      · exact h₄
      · exact h₃ D'' hD''
  · intro D₁ D₂ h₁ h₂ hne T hT₁ hT₂
    by_cases he₁ : D₁ = D
    · rw [he₁] at hT₁
      exact hn.not_userTable hT₁
    · by_cases he₂ : D₂ = D
      · rw [he₂] at hT₂
        exact hn.not_userTable hT₂
      · have hold₁ := h₁.resolve_left he₁
        have hold₂ := h₂.resolve_left he₂
        exact ho.unshared D₁ D₂ hold₁ hold₂ hne T (hT₁.of_sameFrame (hsame D₁ hold₁ he₁).1)
          (hT₂.of_sameFrame (hsame D₂ hold₂ he₂).1)

/-! ## Mapping pages -/

/-- Where mapping pages of the entries `I` into the directory `D` has come to, from `s` on. -/
structure MapsInto (image : KernelImage) (D : Nat) (U I : Nat → Prop) (s t : Pmm) : Prop where
  directory : ProcessDirectory t (kp2v (4096 * D)) D
  own : OwnDirectory t D I (MapFrames image s D I)
  writes : WritesOnly D I (MapFrames image s D I) s t
  kernelHalf : KernelHalf image D (fun i => U i ∨ I i) t.mem

theorem OwnTables.mapsInto (ho : OwnTables image s Ds Opened) (hl : image.Linked) (hD : Ds D) :
    MapsInto image D (fun _ => Opened D) I s s := by
  have hd := ho.directory D hD
  have hk := ho.kernelHalf D hD
  have hfree : ∀ f, s.framemap.test f = true → ¬ UserTable s.mem D f →
      (∀ i, 768 ≤ i → i < 1024 → f ≠ image.tableFrame i) → ¬ MapFrames image s D I f := by
    rintro f hf htable hkernel (hz | hu | ⟨i, h₀, h₁, -, he⟩)
    · rw [hf] at hz
      cases hz
    · exact htable hu
    · exact hkernel i h₀ h₁ he
  have hkernel : ∀ i, 768 ≤ i → i < 1024 → D ≠ image.tableFrame i ∧ D + 1 ≠ image.tableFrame i := by
    intro i h₀ h₁
    have hp := ho.place D hD
    obtain ⟨-, hlow, -, -⟩ := image.frames_low h₀ h₁
    obtain ⟨-, hlinked⟩ := hl.frames h₀ h₁
    omega
  refine ⟨hd, ⟨ho.kernel.reserved 0 (by decide), hd.used, hd.used', ?_, ?_, fun f _ hf => Or.inl hf, ?_⟩,
    .refl D I _ s, hk.present, hk.frame, fun i h₀ h₁ hu => Or.inl (hk.user i h₀ h₁ hu)⟩
  · exact hfree D hd.used (fun hT => ((ho.tables D hD D hT).2.2 D hD).1 rfl) fun i h₀ h₁ =>
      (hkernel i h₀ h₁).1
  · exact hfree _ hd.used' (fun hT => ((ho.tables D hD _ hT).2.2 D hD).2 rfl) fun i h₀ h₁ =>
      (hkernel i h₀ h₁).2
  · intro i hi hI hp
    obtain ⟨T, hT, ⟨-, hused⟩, hpointer, hframe⟩ := hd.mirrored i hi trivial hp
    refine ⟨T, hT, ⟨?_, hused⟩, hpointer, hframe⟩
    by_cases huser : i < 768
    · exact Or.inr (Or.inl ⟨i, huser, hp, hframe⟩)
    · exact Or.inr (Or.inr ⟨i, by omega, hi, hI, by rw [← hframe, hk.frame i (by omega) hi]⟩)

theorem KernelHalf.turn (hk : KernelHalf image D (fun i => U i ∨ I i) t.mem) {new : Bool} (hI : I i)
    (ht : PageTurn D i j phys w (fun f => f ≠ D ∧ f ≠ D + 1) t t' true)
    (hT : TurnTable D T i j phys w new t t') : KernelHalf image D (fun i => U i ∨ I i) t'.mem := by
  obtain ⟨hp, -, -, hframe⟩ := hT.entry
  have hold : ∀ l, 768 ≤ l → l < 1024 → l = i → new = false := by
    rintro l h₀ h₁ rfl
    have hpresent := hk.present l h₀ h₁
    rw [hT.present] at hpresent
    simpa using hpresent
  constructor
  · intro l h₀ h₁
    by_cases he : l = i
    · rw [he]
      exact hp
    · rw [(ht.entries h₁ he).1]
      exact hk.present l h₀ h₁
  · intro l h₀ h₁
    by_cases he : l = i
    · obtain ⟨-, hkept⟩ := hT.entry_kept (hold l h₀ h₁ he)
      rw [← hk.frame l h₀ h₁, he, hkept]
    · rw [(ht.entries h₁ he).1]
      exact hk.frame l h₀ h₁
  · intro l h₀ h₁ hu
    by_cases he : l = i
    · rw [he]
      exact Or.inr hI
    · rw [(ht.entries h₁ he).1] at hu
      exact hk.user l h₀ h₁ hu

theorem MapsInto.turn (h : MapsInto image D U I s t) (hva : va < 4294967296)
    (hI : I (pageDirIdx va)) (hpage : procMapPage (kp2v (4096 * D)) va phys w t = some (t', ok)) :
    MapsInto image D U I s t' := by
  have hown := procMapPage_turn h.directory.pointer h.own hva hI hpage
  cases ok with
  | false =>
    cases hown with
    | noTable _ _ hmem hframes _ _ =>
      obtain ⟨hd, ho, hw, hk⟩ := h
      obtain ⟨m', framemap', failed'⟩ := t'
      dsimp only at hmem hframes
      subst hmem hframes
      exact ⟨⟨hd.pointer, hd.used, hd.used', hd.mirrored, hd.unshared⟩,
        ⟨ho.frame0, ho.used, ho.used', ho.apart, ho.apart', ho.free, ho.mirrored⟩,
        ⟨hw.used, hw.others, hw.entries⟩, hk⟩
  | true =>
    have ht := h.directory.pageTurn hva hpage
    obtain ⟨T, new, hT⟩ := ht.table
    exact ⟨hT.directory h.directory (pageDirIdx_lt hva) ht, h.own.turn hown, h.writes.turn hown hI,
      h.kernelHalf.turn hI ht hT⟩

/-- The loop, whether it maps all its pages or gives up. -/
theorem MapsInto.loop (h : MapsInto image D U I s s)
    (hI : ∀ k < pages, I (pageDirIdx (pageVirt virt k)))
    (hloop : procMapLoop (kp2v (4096 * D)) virt phys w 0 pages s = some (s', ok)) :
    MapsInto image D U I s s' := by
  have hrule := procMapLoop_rule (Q := fun _ => MapsInto image D U I s) hloop ?_ h
  · rcases hrule with ⟨-, hdone⟩ | ⟨-, k, t, -, hk, hsofar, hlast⟩
    · exact hdone
    · exact hsofar.turn (pageVirt_lt virt k) (hI k (by omega)) hlast
  · intro k t t' _ hk hsofar hpage
    exact hsofar.turn (pageVirt_lt virt k) (hI k (by omega)) hpage

/-- A table below 3 GiB is one there was, or in a frame that was free. -/
theorem MapsInto.userTable (h : MapsInto image D U I s s') (hT : UserTable s'.mem D T) :
    s'.framemap.test T = true ∧ (s.framemap.test T = false ∨ UserTable s.mem D T) := by
  obtain ⟨i, hi, hp, hframe⟩ := hT
  obtain ⟨T', -, ⟨-, hused⟩, -, hframe'⟩ := h.directory.mirrored i (by omega) trivial hp
  have hTT : T' = T := hframe'.symm.trans hframe
  refine ⟨hTT ▸ hused, ?_⟩
  by_cases hI : I i
  · obtain ⟨T'', -, ⟨hframes, -⟩, -, hframe''⟩ := h.own.mirrored i (by omega) hI hp
    have hTT' : T'' = T := hframe''.symm.trans hframe
    rw [hTT'] at hframes
    rcases hframes with hfree | htable | ⟨l, h₀, h₁, -, he⟩
    · exact Or.inl hfree
    · exact Or.inr htable
    · -- the kernel's table stands in an entry of its own
      have hsame := h.directory.unshared i (by omega) l h₁ hp (h.kernelHalf.present l h₀ h₁)
        (BitVec.eq_of_toNat_eq (by rw [hframe, he, h.kernelHalf.frame l h₀ h₁]))
      omega
  · rw [(h.writes.entries i (by omega) hI).1] at hp hframe
    exact Or.inr ⟨i, hi, hp, hframe⟩

/-- What is in use, and is not the directory nor one of its tables, stays. -/
theorem MapsInto.sameFrame (h : MapsInto image D U I s s') {f : Nat} (hused : s.framemap.test f = true)
    (hD : f ≠ D) (hD' : f ≠ D + 1) (htable : ¬ UserTable s.mem D f)
    (hkernel : ∀ i, 768 ≤ i → i < 1024 → I i → f ≠ image.tableFrame i) : s.mem.SameFrame s'.mem f := by
  apply h.writes.others f hD hD'
  rintro (hfree | hu | ⟨i, h₀, h₁, hI, he⟩)
  · rw [hused] at hfree
    cases hfree
  · exact htable hu
  · exact hkernel i h₀ h₁ hI he

/-- A table of the kernel's stays, unless its entry is among those of the pages. -/
theorem OwnTables.kernelTable_kept (ho : OwnTables image s Ds Opened) (hl : image.Linked) (hD : Ds D)
    (h : MapsInto image D U I s s') (h₀ : 768 ≤ i) (h₁ : i < 1024) (hI : ¬ I i) :
    s.mem.SameFrame s'.mem (image.tableFrame i) := by
  have hp := ho.place D hD
  obtain ⟨-, hlow, -, -⟩ := image.frames_low h₀ h₁
  obtain ⟨-, hlinked⟩ := hl.frames h₀ h₁
  refine h.sameFrame (ho.kernel.reserved _ hlow) (by omega) (by omega) (fun hT => ?_) fun l hl₀ hl₁ hIl he => ?_
  · have := (ho.tables D hD _ hT).1
    omega
  · rw [image.tableFrame_inj h₀ h₁ hl₀ hl₁ he] at hI
    exact hI hIl

/-- The frames of another directory, and the kernel's own, stay. -/
theorem OwnTables.others (ho : OwnTables image s Ds Opened) (hl : image.Linked) (hD : Ds D)
    (h : MapsInto image D U I s s') :
    (s.mem.SameFrame s'.mem image.dirFrame ∧ s.mem.SameFrame s'.mem (image.dirFrame + 1)) ∧
      ∀ D', Ds D' → D' ≠ D → s.mem.SameFrame s'.mem D' ∧ s.mem.SameFrame s'.mem (D' + 1) := by
  have hp := ho.place D hD
  obtain ⟨hlow, -, -, -⟩ := image.frames_low (i := 768) (by decide) (by decide)
  obtain ⟨hlinked, -⟩ := hl.frames (i := 768) (by decide) (by decide)
  have hkernel : ∀ i, 768 ≤ i → i < 1024 → 256 ≤ image.tableFrame i ∧ image.tableFrame i < 1024 ∧
      image.dirFrame ≠ image.tableFrame i ∧ image.dirFrame + 1 ≠ image.tableFrame i := by
    intro i h₀ h₁
    obtain ⟨-, h₂, h₃, h₄⟩ := image.frames_low h₀ h₁
    exact ⟨(hl.frames h₀ h₁).2, h₂, h₃.symm, h₄.symm⟩
  have hhigh : ∀ T, UserTable s.mem D T → 1024 ≤ T := fun T hT => (ho.tables D hD T hT).1
  constructor
  · constructor
    · refine h.sameFrame (ho.kernel.reserved _ (by omega)) (by omega) (by omega) (fun hT => ?_)
        fun i h₀ h₁ _ => (hkernel i h₀ h₁).2.2.1
      have := hhigh _ hT
      omega
    · refine h.sameFrame (ho.kernel.reserved _ (by omega)) (by omega) (by omega) (fun hT => ?_)
        fun i h₀ h₁ _ => (hkernel i h₀ h₁).2.2.2
      have := hhigh _ hT
      omega
  · intro D' hD' hne
    have hd := ho.directory D' hD'
    have hp' := ho.place D' hD'
    obtain ⟨h₁, h₂, h₃⟩ := ho.apart D' D hD' hD hne
    constructor
    · refine h.sameFrame hd.used h₁ h₂ (fun hT => ((ho.tables D hD D' hT).2.2 D' hD').1 rfl)
        fun i h₀ h₁ _ => ?_
      have := hkernel i h₀ h₁
      omega
    · refine h.sameFrame hd.used' h₃ (by omega)
        (fun hT => ((ho.tables D hD _ hT).2.2 D' hD').2 rfl) fun i h₀ h₁ _ => ?_
      have := hkernel i h₀ h₁
      omega

/-- Mapping pages into one directory leaves every directory its own tables. -/
theorem OwnTables.mapped (ho : OwnTables image s Ds Opened) (hl : image.Linked) (hD : Ds D)
    (h : MapsInto image D (fun _ => Opened D) I s s')
    (hI : ∀ i, 768 ≤ i → i < 1024 → I i → Opened D) : OwnTables image s' Ds Opened := by
  obtain ⟨⟨hK, hK'⟩, hsame⟩ := ho.others hl hD h
  have hused := h.writes.used
  have hold : ∀ D', Ds D' → D' ≠ D → ∀ T, UserTable s'.mem D' T → UserTable s.mem D' T :=
    fun D' hD' hne T hT => hT.of_sameFrame (hsame D' hD' hne).1
  constructor
  · exact ho.kernel.of_sameFrame hused hK hK'
  · intro i h₀ h₁
    rw [hK.word h₁]
    exact ho.closed i h₀ h₁
  · intro D' hD'
    by_cases hne : D' = D
    · rw [hne]
      exact h.directory
    · exact (ho.directory D' hD').of_sameFrame hused (hsame D' hD' hne).1 (hsame D' hD' hne).2
  · exact ho.place
  · exact ho.apart
  · intro D' hD'
    by_cases hne : D' = D
    · rw [hne]
      refine ⟨h.kernelHalf.present, h.kernelHalf.frame, fun i h₀ h₁ hu => ?_⟩
      rcases h.kernelHalf.user i h₀ h₁ hu with hopen | hidx
      · exact hopen
      · exact hI i h₀ h₁ hidx
    · exact (ho.kernelHalf D' hD').of_sameFrame (hsame D' hD' hne).1
  · intro D' hD' T hT
    by_cases hne : D' = D
    · rw [hne] at hT
      obtain ⟨hused', hfree | htable⟩ := h.userTable hT
      · refine ⟨?_, hused', fun D'' hD'' => ⟨fun he => ?_, fun he => ?_⟩⟩
        · by_contra hlt
          rw [ho.kernel.reserved T (by omega)] at hfree
          cases hfree
        · rw [he, (ho.directory D'' hD'').used] at hfree
          cases hfree
        · rw [he, (ho.directory D'' hD'').used'] at hfree
          cases hfree
      · obtain ⟨h₁, -, h₃⟩ := ho.tables D hD T htable
        exact ⟨h₁, hused', h₃⟩
    · obtain ⟨h₁, h₂, h₃⟩ := ho.tables D' hD' T (hold D' hD' hne T hT)
      exact ⟨h₁, hused T h₂, h₃⟩
  · -- a table of `D` is new, or was its own before
    have hown : ∀ D', Ds D' → D' ≠ D → ∀ T, UserTable s'.mem D T → ¬ UserTable s'.mem D' T := by
      intro D' hD' hne T hT hT'
      have hbefore := hold D' hD' hne T hT'
      obtain ⟨-, hfree | htable⟩ := h.userTable hT
      · rw [(ho.tables D' hD' T hbefore).2.1] at hfree
        cases hfree
      · exact ho.unshared D D' hD hD' hne.symm T htable hbefore
    intro D₁ D₂ h₁ h₂ hne T hT₁ hT₂
    by_cases he₁ : D₁ = D
    · rw [he₁] at hT₁ hne
      exact hown D₂ h₂ hne.symm T hT₁ hT₂
    · by_cases he₂ : D₂ = D
      · rw [he₂] at hT₂ hne
        exact hown D₁ h₁ hne T hT₂ hT₁
      · exact ho.unshared D₁ D₂ h₁ h₂ hne T (hold D₁ h₁ he₁ T hT₁) (hold D₂ h₂ he₂ T hT₂)

/-- Pages mapped below 3 GiB change no walk of another directory. -/
theorem OwnTables.walk_other (ho : OwnTables image s Ds Opened) (hl : image.Linked) (hD : Ds D)
    (h : MapsInto image D U I s s') (hI : ∀ i, I i → i < 768) (hD' : Ds D') (hne : D' ≠ D)
    (hva : va < 4294967296) : walk s'.mem (4096 * D') va = walk s.mem (4096 * D') va := by
  obtain ⟨-, hsame⟩ := ho.others hl hD h
  have hi := pageDirIdx_lt hva
  rw [walk_frames, walk_frames, (hsame D' hD' hne).1.word hi]
  cases hp : (PageDirEntry.decode (s.mem.word D' (pageDirIdx va))).present with
  | false => rfl
  | true =>
    -- the table is another's, or the kernel's
    have htable : s.mem.SameFrame s'.mem
        (PageDirEntry.decode (s.mem.word D' (pageDirIdx va))).frame.toNat := by
      by_cases huser : pageDirIdx va < 768
      · have hT : UserTable s.mem D' (PageDirEntry.decode (s.mem.word D' (pageDirIdx va))).frame.toNat :=
          ⟨_, huser, hp, rfl⟩
        obtain ⟨-, hused, hdirs⟩ := ho.tables D' hD' _ hT
        obtain ⟨h₁, h₂⟩ := hdirs D hD
        refine h.sameFrame hused h₁ h₂ (fun hT' => ho.unshared D' D hD' hD hne _ hT hT') ?_
        intro i h₀ _ hidx
        have := hI i hidx
        omega
      · rw [(ho.kernelHalf D' hD').frame _ (by omega) hi]
        exact ho.kernelTable_kept hl hD h (by omega) hi fun hidx => huser (hI _ hidx)
    rw [htable.word (pageTblIdx_lt va)]

/-- Above 3 GiB user mode gets in at the entries `U` alone. -/
theorem KernelHalf.userAccessible (hk : KernelHalf image D U m) (h₀ : 0xC0000000 ≤ va)
    (hva : va < 4294967296) (hU : ¬ U (pageDirIdx va)) : userAccessible m (4096 * D) va = false := by
  have hi := pageDirIdx_lt hva
  have hkern : 768 ≤ pageDirIdx va := by
    simp only [pageDirIdx]
    omega
  rw [← Bool.not_eq_true]
  intro hacc
  rw [Mm.userAccessible, Option.any_eq_true] at hacc
  obtain ⟨found, hwalk, huser⟩ := hacc
  rw [walk_frames, if_pos (hk.present _ hkern hi)] at hwalk
  split at hwalk
  · cases hwalk
    rw [Bool.and_eq_true] at huser
    exact hU (hk.user _ hkern hi huser.1)
  · cases hwalk

end OwnTables

end BrownieOS.Process
