import BrownieOS.Lib.Run
import BrownieOS.Mm.Vmm

/-!
# The identity window under temporary mappings

Any sequence of `kmap` and `kunmap` from the kernel directory, where only results of
`kmap` are unmapped. `kunmap` does not tell an address of the window from a highmem
slot, so the pages it was given in the window are the ones that are gone.
-/
namespace BrownieOS.Mm

open BrownieOS.Lib BrownieOS.Lib.Word32

/-- Physical memory, and the addresses `kmap` has returned so far. -/
structure VmmState where
  mem : Mem
  returned : List Nat

inductive VmmCall where
  | kmap (paddr : Nat)
  | kunmap (vaddr : Nat)
  deriving DecidableEq

def VmmState.call (image : KernelImage) (s : VmmState) : VmmCall → VmmState
  | .kmap paddr =>
    let result := kmap image.dir s.mem paddr
    ⟨result.1, result.2 :: s.returned⟩
  | .kunmap vaddr => ⟨kunmap image.dir s.mem vaddr, s.returned⟩

/-- Addresses are 32-bit, and what is unmapped was returned by `kmap`. -/
def VmmState.Legal (s : VmmState) : VmmCall → Prop
  | .kmap paddr => paddr < 4294967296
  | .kunmap vaddr => vaddr ∈ s.returned

def VmmStep (image : KernelImage) (s : VmmState) (c : VmmCall) (s' : VmmState) : Prop :=
  s.Legal c ∧ s' = s.call image c

/-- The window address of `p` translates to `p` and can be written. -/
def IdentityMapped (m : Mem) (image : KernelImage) (p : Nat) : Prop :=
  translate m image.dirPaddr (kp2v p) = some p ∧ writable m image.dirPaddr (kp2v p) = true

/-- Some call unmaps page `j` of table `i`. -/
def Unmaps (calls : List VmmCall) (i j : Nat) : Prop :=
  ∃ v, .kunmap v ∈ calls ∧ pageDirIdx v = i ∧ pageTblIdx v = j

/-- Every address unmapped is NULL or in the highmem tables. -/
def KeepsWindow (calls : List VmmCall) : Prop :=
  ∀ v, .kunmap v ∈ calls → v = 0 ∨ 0xF8000000 ≤ v

/-- The run invariant: each page of the window is mapped, or was unmapped and is zero. -/
structure VmmInv (image : KernelImage) (calls : List VmmCall) (s : VmmState) : Prop where
  directory : KernelDirectory s.mem image
  results : ∀ v ∈ s.returned, v = 0 ∨ 0xC0000000 ≤ v ∧ v < 4294967296
  unmapped : ∀ v, .kunmap v ∈ calls → v = 0 ∨ 0xC0000000 ≤ v ∧ v < 4294967296
  kept : ∀ i, 768 ≤ i → i < 992 → ∀ j < 1024, ¬ Unmaps calls i j → PageMapped s.mem image i j
  cleared : ∀ i, 768 ≤ i → i < 992 → ∀ j < 1024, Unmaps calls i j →
    s.mem.get32 (image.slot i j) = 0

variable {image : KernelImage} {m m₀ : Mem} {calls : List VmmCall} {s s' : VmmState}

theorem PageMapped.set_slot {i j i' j' v : Nat} (h : PageMapped m image i' j') (hi₀ : 768 ≤ i)
    (hi : i < 1024) (hj : j < 1024) (hi₀' : 768 ≤ i') (hi' : i' < 1024) (hj' : j' < 1024)
    (hv : v < 4294967296) (hne : ¬ (i' = i ∧ j' = j)) :
    PageMapped (m.set32 (image.slot i j) v) image i' j' := by
  have hpage : getPage (m.set32 (image.slot i j) v) (image.table i') j' =
      getPage m (image.table i') j' := by
    have hword := image.get32_slot (m := m) hi₀ hi hj hi₀' hi' hj' hv
    rw [if_neg hne] at hword
    exact congrArg Page.decode hword
  constructor
  · rw [hpage]; exact h.present
  · rw [hpage]; exact h.rw
  · rw [hpage]; exact h.frame

theorem unmaps_snoc_kmap {paddr i j : Nat} : Unmaps (calls ++ [.kmap paddr]) i j ↔
    Unmaps calls i j := by
  simp [Unmaps]

theorem unmaps_snoc_kunmap {v i j : Nat} : Unmaps (calls ++ [.kunmap v]) i j ↔
    Unmaps calls i j ∨ pageDirIdx v = i ∧ pageTblIdx v = j := by
  simp only [Unmaps, List.mem_append, List.mem_singleton, VmmCall.kunmap.injEq, or_and_right,
    exists_or]
  constructor
  · rintro (h | ⟨w, rfl, h⟩)
    · exact Or.inl h
    · exact Or.inr h
  · rintro (h | h)
    · exact Or.inl h
    · exact Or.inr ⟨v, rfl, h⟩

namespace VmmInv

theorem start (hdir : KernelDirectory m image)
    (hwindow : ∀ i, 768 ≤ i → i < 992 → ∀ j < 1024, PageMapped m image i j) :
    VmmInv image [] ⟨m, []⟩ :=
  ⟨hdir, by simp, by simp, fun i h₀ h₁ j hj _ => hwindow i h₀ h₁ j hj,
    fun i h₀ h₁ j hj ⟨v, hv, _⟩ => by simp at hv⟩

theorem call_kmap (hi : VmmInv image calls s) {paddr : Nat} (hp : paddr < 4294967296) :
    VmmInv image (calls ++ [.kmap paddr]) (s.call image (.kmap paddr)) := by
  have hunmapped : ∀ v, .kunmap v ∈ calls ++ [.kmap paddr] → v = 0 ∨
      0xC0000000 ≤ v ∧ v < 4294967296 := by
    intro v hv
    exact hi.unmapped v (by simpa using hv)
  have hsame : ∀ v, (v = 0 ∨ 0xC0000000 ≤ v ∧ v < 4294967296) →
      VmmInv image (calls ++ [.kmap paddr]) ⟨s.mem, v :: s.returned⟩ := by
    intro v hv
    refine ⟨hi.directory, fun w hw => ?_, hunmapped, fun i h₀ h₁ j hj h => ?_,
      fun i h₀ h₁ j hj h => ?_⟩
    · rcases List.mem_cons.mp hw with rfl | hw
      · exact hv
      · exact hi.results w hw
    · exact hi.kept i h₀ h₁ j hj (by rwa [unmaps_snoc_kmap] at h)
    · exact hi.cleared i h₀ h₁ j hj (by rwa [unmaps_snoc_kmap] at h)
  have hresult := kmap_result hi.directory paddr
  rw [VmmState.call]
  cases hkmap : Mm.kmap image.dir s.mem paddr with
  | mk m' v =>
    rw [hkmap] at hresult
    cases hresult with
    | null => exact hsame 0 (Or.inl rfl)
    | identity h₀ h₁ =>
      refine hsame _ (Or.inr ?_)
      rw [kp2v_eq h₁]
      simp only [kernIdentityPhysEnd] at h₁
      omega
    | @slot i j hlow hi₀ hi₁ hj hz =>
      have hadd := pageIdxVaddr_eq hi₁ hj (Nat.mod_lt paddr (by decide : 0 < 4096))
      refine ⟨hi.directory.set_slot (by omega) hi₁ hj, fun w hw => ?_, hunmapped,
        fun i' h₀ h₁ j' hj' h => ?_, fun i' h₀ h₁ j' hj' h => ?_⟩
      · rcases List.mem_cons.mp hw with rfl | hw
        · exact Or.inr (by rw [hadd]; omega)
        · exact hi.results w hw
      · rw [unmaps_snoc_kmap] at h
        exact (hi.kept i' h₀ h₁ j' hj' h).set_slot (by omega) hi₁ hj h₀ (by omega) hj'
          (mappedWord_lt paddr) (by omega)
      · rw [unmaps_snoc_kmap] at h
        rw [image.get32_slot (by omega) hi₁ hj h₀ (by omega) hj' (mappedWord_lt paddr),
          if_neg (by omega)]
        exact hi.cleared i' h₀ h₁ j' hj' h

theorem call_kunmap (hi : VmmInv image calls s) {v : Nat} (hv : v ∈ s.returned) :
    VmmInv image (calls ++ [.kunmap v]) (s.call image (.kunmap v)) := by
  have hrange := hi.results v hv
  have hunmapped : ∀ w, .kunmap w ∈ calls ++ [.kunmap v] → w = 0 ∨
      0xC0000000 ≤ w ∧ w < 4294967296 := by
    intro w hw
    rcases List.mem_append.mp hw with hw | hw
    · exact hi.unmapped w hw
    · obtain rfl : w = v := by simpa using hw
      exact hrange
  rcases hrange with rfl | ⟨hlow, hhigh⟩
  · have hother : ∀ i j, 768 ≤ i → (Unmaps (calls ++ [.kunmap 0]) i j ↔ Unmaps calls i j) := by
      intro i j h₀
      rw [unmaps_snoc_kunmap]
      have hidx : pageDirIdx 0 = 0 := rfl
      constructor
      · rintro (h | ⟨h, -⟩)
        · exact h
        · omega
      · exact Or.inl
    refine ⟨hi.directory, hi.results, hunmapped, fun i h₀ h₁ j hj h => ?_,
      fun i h₀ h₁ j hj h => ?_⟩
    · exact hi.kept i h₀ h₁ j hj (by rwa [hother i j h₀] at h)
    · exact hi.cleared i h₀ h₁ j hj (by rwa [hother i j h₀] at h)
  · have hi₀ : 768 ≤ pageDirIdx v := by simp only [pageDirIdx]; omega
    have hi₁ : pageDirIdx v < 1024 := by simp only [pageDirIdx]; omega
    have hj : pageTblIdx v < 1024 := by simp only [pageTblIdx]; omega
    rw [VmmState.call, kunmap_eq hi.directory hlow hhigh]
    refine ⟨hi.directory.set_slot hi₀ hi₁ hj, hi.results, hunmapped, fun i h₀ h₁ j hj' h => ?_,
      fun i h₀ h₁ j hj' h => ?_⟩
    · rw [unmaps_snoc_kunmap, not_or] at h
      exact (hi.kept i h₀ h₁ j hj' h.1).set_slot hi₀ hi₁ hj h₀ (by omega) hj' (by decide)
        fun he => h.2 ⟨he.1.symm, he.2.symm⟩
    · rw [image.get32_slot hi₀ hi₁ hj h₀ (by omega) hj' (by decide)]
      split
      · rfl
      · rename_i hne
        rw [unmaps_snoc_kunmap] at h
        exact hi.cleared i h₀ h₁ j hj' (h.resolve_right fun he => hne ⟨he.1.symm, he.2.symm⟩)

theorem run (hrun : Run (VmmStep image) ⟨setupKernelDirectory image m₀, []⟩ calls s) :
    VmmInv image calls s := by
  obtain ⟨hdir, hwindow⟩ := setupKernelDirectory_spec image m₀
  refine hrun.invariant_trace (I := VmmInv image) ?_ (start hdir hwindow)
  rintro as t c u hi ⟨hlegal, rfl⟩
  cases c with
  | kmap paddr => exact hi.call_kmap hlegal
  | kunmap v => exact hi.call_kunmap hlegal

end VmmInv

/-! ## The window address by address -/

theorem PageMapped.identityMapped (hk : KernelDirectory m image) {p : Nat}
    (hp : p < kernIdentityPhysEnd)
    (h : PageMapped m image (768 + p / 4194304) (p / 4096 % 1024)) : IdentityMapped m image p := by
  obtain ⟨hi, hj⟩ := kp2v_idx hp
  have hv := kp2v_eq hp
  have hpres := h.present
  have hrw := h.rw
  have hframe := h.frame
  have hrw' := hk.rw (768 + p / 4194304) (by omega) (by simp only [kernIdentityPhysEnd] at hp; omega)
  have hwalk := hk.walk_eq (sharesKernelHalf_self m image) (show 0xC0000000 ≤ kp2v p by omega)
     (by simp only [kernIdentityPhysEnd] at hp; omega)
  rw [hi, hj, if_pos hpres] at hwalk
  constructor
  · rw [translate, hwalk]
    simp only [Option.map_some, framePaddr, hframe, hv, Option.some.injEq]
    omega
  · rw [writable, hwalk]
    simp [hrw, hrw']

theorem not_identityMapped (hk : KernelDirectory m image) {p : Nat} (hp : p < kernIdentityPhysEnd)
    (h : m.get32 (image.slot (768 + p / 4194304) (p / 4096 % 1024)) = 0) :
    ¬ IdentityMapped m image p := by
  obtain ⟨hi, hj⟩ := kp2v_idx hp
  have hv := kp2v_eq hp
  have hpage : getPage m (image.table (768 + p / 4194304)) (p / 4096 % 1024) = Page.decode 0 :=
    congrArg Page.decode h
  have hwalk := hk.walk_eq (sharesKernelHalf_self m image) (show 0xC0000000 ≤ kp2v p by omega)
     (by simp only [kernIdentityPhysEnd] at hp; omega)
  rw [hi, hj, hpage, decode_zero] at hwalk
  rintro ⟨htrans, -⟩
  rw [translate, hwalk] at htrans
  simp at htrans

/-- A window address is mapped as long as no call unmapped its page. -/
theorem VmmInv.identityMapped_iff (hi : VmmInv image calls s) {p : Nat}
    (hp : p < kernIdentityPhysEnd) : IdentityMapped s.mem image p ↔
      ¬ Unmaps calls (768 + p / 4194304) (p / 4096 % 1024) := by
  have hrange : 768 + p / 4194304 < 992 := by
    simp only [kernIdentityPhysEnd] at hp
    omega
  constructor
  · intro hmapped hun
    exact not_identityMapped hi.directory hp
      (hi.cleared _ (by omega) hrange _ (Nat.mod_lt _ (by decide)) hun) hmapped
  · intro hun
    exact (hi.kept _ (by omega) hrange _ (Nat.mod_lt _ (by decide)) hun).identityMapped
      hi.directory hp

theorem VmmInv.window_iff (hi : VmmInv image calls s) :
    (∀ p < kernIdentityPhysEnd, IdentityMapped s.mem image p) ↔ KeepsWindow calls := by
  constructor
  · intro hall v hv
    by_contra hbad
    have hrange := hi.unmapped v hv
    have hp : v - 0xC0000000 < kernIdentityPhysEnd := by
      simp only [kernIdentityPhysEnd]
      omega
    refine (hi.identityMapped_iff hp).mp (hall _ hp) ⟨v, hv, ?_, ?_⟩
    · simp only [pageDirIdx]
      omega
    · simp only [pageTblIdx]
      omega
  · intro hkeep p hp
    rw [hi.identityMapped_iff hp]
    rintro ⟨v, hv, hdi, -⟩
    have hidx := hkeep v hv
    simp only [pageDirIdx] at hdi
    simp only [kernIdentityPhysEnd] at hp
    omega

/-- Mapping and unmapping one address again. -/
theorem VmmInv.kmap_kunmap_iff (hi : VmmInv image calls s) (hkeep : KeepsWindow calls) (paddr : Nat) :
    kunmap image.dir (kmap image.dir s.mem paddr).1 (kmap image.dir s.mem paddr).2 = s.mem ↔
      paddr = 0 ∨ kernIdentityPhysEnd ≤ paddr := by
  have hresult := kmap_result hi.directory paddr
  cases hkmap : kmap image.dir s.mem paddr with
  | mk m' v =>
    rw [hkmap] at hresult
    cases hresult with
    | null h => exact ⟨fun _ => h, fun _ => kunmap_zero _ _⟩
    | identity h₀ h₁ =>
      have hv := kp2v_eq h₁
      obtain ⟨hdi, hti⟩ := kp2v_idx h₁
      have hmapped := hi.window_iff.mpr hkeep paddr h₁
      simp only [kernIdentityPhysEnd] at h₁ ⊢
      refine ⟨fun hsame => ?_, fun h => by omega⟩
      rw [kunmap_eq hi.directory (by omega) (by omega), hdi, hti] at hsame
      refine absurd hmapped (not_identityMapped hi.directory h₁ ?_)
      rw [← hsame]
      exact Mem.get32_set32_self _ _ (by decide)
    | @slot i j hhigh hi₀ hi₁ hj hz =>
      have ho := Nat.mod_lt paddr (show 0 < 4096 by decide)
      obtain ⟨hdi, hti, -⟩ := pageIdxVaddr_idx hi₁ hj ho
      have hadd := pageIdxVaddr_eq hi₁ hj ho
      refine ⟨fun _ => Or.inr hhigh, fun _ => ?_⟩
      rw [kunmap_eq (hi.directory.set_slot (by omega) hi₁ hj) (by omega) (by omega), hdi, hti,
        Mem.set32_set32_self]
      rw [← hz, Mem.set32_get32_self]

/-- In every state reached from the kernel directory the whole window is there exactly
when no window address was unmapped; as long as that is so, mapping and unmapping one
address leaves the tables as they were exactly when the address is not a low one. -/
theorem identity_window_iff
    (hrun : Run (VmmStep image) ⟨setupKernelDirectory image m₀, []⟩ calls s) :
    ((∀ p < kernIdentityPhysEnd, IdentityMapped s.mem image p) ↔ KeepsWindow calls) ∧
      (KeepsWindow calls → ∀ paddr < 4294967296,
        (kunmap image.dir (kmap image.dir s.mem paddr).1 (kmap image.dir s.mem paddr).2 = s.mem ↔
          paddr = 0 ∨ kernIdentityPhysEnd ≤ paddr)) := by
  have hi := VmmInv.run hrun
  exact ⟨hi.window_iff, fun hkeep paddr _ => hi.kmap_kunmap_iff hkeep paddr⟩

/-- A place the linker could put the directory and the tables at. -/
def sampleImage : KernelImage where
  dir := 0xC0200000
  tables := 0xC0300000
  dirAligned := by decide
  tablesAligned := by decide
  dirInside := by decide
  tablesInside := by decide
  apart := by decide

/-- Two highmem addresses, mapped on a machine that has not mapped any. -/
theorem sample_two_mapped {p q : Nat} (hp : kernIdentityPhysEnd ≤ p) (hq : kernIdentityPhysEnd ≤ q) :
    ∃ m₀ m₁ m₂, m₀ = setupKernelDirectory sampleImage (fun _ => 0) ∧
      kmap sampleImage.dir m₀ p = (m₁, 0xF8000000 + p % 4096) ∧
      kmap sampleImage.dir m₁ q = (m₂, 0xF8001000 + q % 4096) ∧ KernelDirectory m₂ sampleImage := by
  have hk := (setupKernelDirectory_spec sampleImage fun _ => 0).1
  obtain ⟨-, hempty⟩ := setupKernelDirectory_kept sampleImage fun _ => 0
  have hfree : ∀ j < 1024,
      (setupKernelDirectory sampleImage fun _ => 0).get32 (sampleImage.slot 992 j) = 0 :=
    fun j hj => (hempty 992 (by decide) (by decide) j hj).trans rfl
  have hk₁ := hk.set_slot (i := 992) (j := 0) (v := mappedWord p) (by decide) (by decide) (by decide)
  have hword : ∀ j < 1024, ((setupKernelDirectory sampleImage fun _ => 0).set32 (sampleImage.slot 992 0)
      (mappedWord p)).get32 (sampleImage.slot 992 j) = if 992 = 992 ∧ j = 0 then mappedWord p else
        (setupKernelDirectory sampleImage fun _ => 0).get32 (sampleImage.slot 992 j) :=
    fun j hj => sampleImage.get32_slot (by decide) (by decide) (by decide) (by decide) (by decide) hj
      (mappedWord_lt p)
  refine ⟨_, _, _, rfl, hk.kmap_first (j := 0) (by decide) (hfree 0 (by decide))
    (fun k hk => absurd hk (Nat.not_lt_zero k)) hp, hk₁.kmap_first (j := 1) (by decide) ?_ ?_ hq,
    hk₁.set_slot (by decide) (by decide) (by decide)⟩
  · rw [hword 1 (by decide), if_neg (by decide)]
    exact hfree 1 (by decide)
  · intro k hk
    obtain rfl : k = 0 := Nat.lt_one_iff.1 hk
    rw [hword 0 (by decide), if_pos ⟨rfl, rfl⟩]
    exact mappedWord_ne_zero p

/-- Two highmem addresses are mapped, the first is unmapped, and a low one is mapped. -/
theorem identity_window_iff_two_mapped : ∃ s : VmmState,
    Run (VmmStep sampleImage) ⟨setupKernelDirectory sampleImage fun _ => 0, []⟩
      [.kmap 0x40000000, .kmap 0x80000123, .kunmap 0xF8000000, .kmap 0x1000] s ∧
    (∀ p < kernIdentityPhysEnd, IdentityMapped s.mem sampleImage p) ∧
    kunmap sampleImage.dir (kmap sampleImage.dir s.mem 0x80000123).1
      (kmap sampleImage.dir s.mem 0x80000123).2 = s.mem := by
  obtain ⟨m₀, m₁, m₂, hm₀, hfirst, hsecond, -⟩ :=
    sample_two_mapped (p := 0x40000000) (q := 0x80000123) (by decide) (by decide)
  have hmap₁ : VmmStep sampleImage ⟨m₀, []⟩ (.kmap 0x40000000) ⟨m₁, [0xF8000000]⟩ :=
    ⟨show 0x40000000 < 4294967296 by decide, by rw [VmmState.call, hfirst]⟩
  have hmap₂ : VmmStep sampleImage ⟨m₁, [0xF8000000]⟩ (.kmap 0x80000123)
      ⟨m₂, [0xF8001123, 0xF8000000]⟩ :=
    ⟨show 0x80000123 < 4294967296 by decide, by rw [VmmState.call, hsecond]⟩
  have hunmap : VmmStep sampleImage ⟨m₂, [0xF8001123, 0xF8000000]⟩ (.kunmap 0xF8000000) _ :=
    ⟨show 0xF8000000 ∈ [0xF8001123, 0xF8000000] by decide, rfl⟩
  have hlow : ∀ s : VmmState, VmmStep sampleImage s (.kmap 0x1000) (s.call sampleImage (.kmap 0x1000)) :=
    fun s => ⟨show 0x1000 < 4294967296 by decide, rfl⟩
  have hrun := (((Run.single hmap₁).snoc hmap₂).snoc hunmap).snoc (hlow _)
  rw [hm₀] at hrun
  have hkeep : KeepsWindow [.kmap 0x40000000, .kmap 0x80000123, .kunmap 0xF8000000, .kmap 0x1000] := by
    simp [KeepsWindow]
  have h := identity_window_iff hrun
  exact ⟨_, hrun, h.1.2 hkeep, (h.2 hkeep 0x80000123 (by decide)).2 (Or.inr (by decide))⟩

/-- Mapping physical 0x1000 for a moment takes its page out of the window. -/
theorem identity_window_fails : ∃ s : VmmState,
    Run (VmmStep sampleImage) ⟨setupKernelDirectory sampleImage fun _ => 0, []⟩
      [.kmap 0x1000, .kunmap 0xC0001000] s ∧ ¬ IdentityMapped s.mem sampleImage 0x1000 := by
  have hlegal : 0x1000 < 4294967296 := by decide
  have hlow : ∀ s : VmmState, (s.call sampleImage (.kmap 0x1000)).Legal (.kunmap 0xC0001000) :=
    fun _ => List.mem_cons_self
  have hrun : Run (VmmStep sampleImage) ⟨setupKernelDirectory sampleImage fun _ => 0, []⟩
      [.kmap 0x1000, .kunmap 0xC0001000] _ := .cons ⟨hlegal, rfl⟩ (.single ⟨hlow _, rfl⟩)
  refine ⟨_, hrun, ?_⟩
  rw [(VmmInv.run hrun).identityMapped_iff (by decide)]
  exact fun h => h ⟨0xC0001000, by simp, rfl, rfl⟩

end BrownieOS.Mm
