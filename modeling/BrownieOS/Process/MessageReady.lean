import BrownieOS.Mm.HighmemSlots
import BrownieOS.Process.FirstView
import BrownieOS.Process.Isolation

/-!
# When `make_user_proc_with_message` makes a process

With two frames for the pages and two slots of the highmem window, a slot of the process table,
two blocks of the heap and the frames of an address space, the call returns a process, no
allocation has failed, and both slots of the window are free again.
-/
namespace BrownieOS.Process

open BrownieOS.Lib BrownieOS.Lib.Word32 BrownieOS.Mm

/-- The frames of `create_proc`, and one for the table of the pages, after which one more is left. -/
structure SpaceLeft (fm fm₃ fm₄ fm₅ : FrameMap) : Prop where
  dir : ∃ base fm', Mm.allocPages fm pmmFlagsDefault 2 = some (base, fm')
  space : spaceFrames fm pageSize = some (fm₃, true, true)
  table : ∃ t, t ≠ 0 ∧ Mm.allocPages fm₃ pmmFlagsDefault 1 = some (t, fm₄)
  table' : ∃ t, t ≠ 0 ∧ Mm.allocPages fm₄ pmmFlagsDefault 1 = some (t, fm₅)

/-- The frames that the call takes: those of the pages `a` and `b`, and those behind them. -/
structure MessageFrames (fm fm₁ fm₂ fm₃ fm₄ fm₅ : FrameMap) (a b : Nat) : Prop
    extends SpaceLeft fm₂ fm₃ fm₄ fm₅ where
  code : Mm.allocPages fm pmmFlagsHighmem 1 = some (a, fm₁)
  data : Mm.allocPages fm₁ pmmFlagsHighmem 1 = some (b, fm₂)
  high : kernIdentityPhysEnd ≤ a ∧ kernIdentityPhysEnd ≤ b

/-- A page of the highmem window, by its number, with an entry of zero. -/
def FreePage (image : KernelImage) (m : Mem) (n : Nat) : Prop :=
  1015808 ≤ n ∧ n < 1048576 ∧ m.get32 (image.slot (n / 1024) (n % 1024)) = 0

def TwoFree (image : KernelImage) (m : Mem) : Prop :=
  ∃ n n', n ≠ n' ∧ FreePage image m n ∧ FreePage image m n'

/-- Two addresses at different pages of the window. -/
structure WindowPages (v v' : Nat) : Prop where
  low : 0xF8000000 ≤ v
  high : v < 4294967296
  low' : 0xF8000000 ≤ v'
  high' : v' < 4294967296
  apart : v / 4096 ≠ v' / 4096

/-- All that the call needs to make the process `p`. -/
structure MessageReady (image : KernelImage) (k : Kernel) (p i : Nat) (fm₃ fm₄ fm₅ : FrameMap) : Prop where
  frames : ∃ fm₁ fm₂ a b, MessageFrames k.pmm.framemap fm₁ fm₂ fm₃ fm₄ fm₅ a b
  window : TwoFree image k.pmm.mem
  slot : findEmptySlot k 1 (maxProc - 1) = some i
  block : (Mm.kmalloc k.heap sizeofProc).2 = p ∧ p ≠ 0
  stack : (Mm.kmalloc (Mm.kmalloc k.heap sizeofProc).1 8192).2 ≠ 0

/-- What the call leaves. -/
structure MessageMade (image : KernelImage) (k k' : Kernel) (p i : Nat) (fm₃ fm₄ fm₅ : FrameMap) : Prop where
  failed : k'.pmm.failed = false
  frames : k'.pmm.framemap = fm₃ ∨ k'.pmm.framemap = fm₄ ∨ k'.pmm.framemap = fm₅
  heap : k'.heap = (Mm.kmalloc (Mm.kmalloc k.heap sizeofProc).1 8192).1
  list : k'.procList = Function.update k.procList i p
  window : TwoFree image k'.pmm.mem

/-- Where the part from `create_proc` on has come to when both pages are mapped. -/
structure MessageMapped (image : KernelImage) (k k' : Kernel) (p i : Nat) (fm₃ fm₄ fm₅ : FrameMap) : Prop where
  failed : k'.pmm.failed = false
  frames : k'.pmm.framemap = fm₃ ∨ k'.pmm.framemap = fm₄ ∨ k'.pmm.framemap = fm₅
  heap : k'.heap = (Mm.kmalloc (Mm.kmalloc k.heap sizeofProc).1 8192).1
  list : k'.procList = Function.update k.procList i p
  others : ∀ q, q ≠ p → k'.procs q = k.procs q
  directory : KernelDirectory k'.pmm.mem image

section MessageReady

variable {image : KernelImage} {first : FrameMap} {k k' : Kernel} {Held Opened : Nat → Prop}
  {Ds : Nat → Prop} {D F F' p base i n kp v v' va : Nat} {fm fm₃ fm₄ fm₅ : FrameMap} {w : Bool}
  {msg : List Byte} {m : Mem} {kernelProc : Proc} {calls : List (CreateCall × Nat)}

/-! ## The window -/

/-- A slot is written: every other page stays free. -/
theorem FreePage.set_slot {i j c : Nat} (h : FreePage image m n) (hi : 992 ≤ i) (hi' : i < 1024)
    (hj : j < 1024) (hc : c < 4294967296) (hne : n ≠ i * 1024 + j) :
    FreePage image (m.set32 (image.slot i j) c) n := by
  obtain ⟨h₁, h₂, hz⟩ := h
  refine ⟨h₁, h₂, ?_⟩
  rw [image.get32_slot (by omega) hi' hj (by omega) (by omega) (by omega) hc, if_neg (by omega)]
  exact hz

/-- With a page free, a high address is mapped at a page that was free, and only that page is taken. -/
theorem FreePage.kmap (h : FreePage image m n) (hk : KernelDirectory m image) {a : Nat}
    (ha : kernIdentityPhysEnd ≤ a) :
    FreePage image m ((Mm.kmap image.dir m a).2 / 4096) ∧
      ∀ n', FreePage image (Mm.kmap image.dir m a).1 n' ↔
        FreePage image m n' ∧ n' ≠ (Mm.kmap image.dir m a).2 / 4096 := by
  cases hslot : findFreeSlot m image.dir kernHighmemStartTbl 32 with
  | none =>
    obtain ⟨h₁, h₂, hz⟩ := h
    have hfull := findFreeSlot_none 32 kernHighmemStartTbl hslot (n / 1024)
      (by simp only [kernHighmemStartTbl]; omega) (by simp only [kernHighmemStartTbl]; omega) (n % 1024)
      (by omega)
    rw [hk.pointers (n / 1024) (by omega) (by omega)] at hfull
    exact absurd hz hfull
  | some slot =>
    obtain ⟨i, j⟩ := slot
    have hslot' := hslot
    simp only [kernHighmemStartTbl] at hslot'
    obtain ⟨hi, hi', hj, hz⟩ := findFreeSlot_some _ _ hslot'
    rw [hk.pointers i (by omega) (by omega)] at hz
    have hva := pageIdxVaddr_eq (i := i) (by omega) hj (Nat.mod_lt a (by decide : 0 < 4096))
    rw [kmap_slot hk hslot ha]
    have hpage : pageIdxVaddr i j (a % 4096) / 4096 = i * 1024 + j := by omega
    dsimp only
    rw [hpage]
    refine ⟨⟨by omega, by omega, ?_⟩, fun n' => ?_⟩
    · rw [show (i * 1024 + j) / 1024 = i by omega, show (i * 1024 + j) % 1024 = j by omega]
      exact hz
    · by_cases hne : n' = i * 1024 + j
      · refine ⟨fun hfree => ?_, fun hfree => absurd hne hfree.2⟩
        have hword := hfree.2.2
        rw [hne, show (i * 1024 + j) / 1024 = i by omega, show (i * 1024 + j) % 1024 = j by omega,
          Mem.get32_set32_self _ _ (mappedWord_lt a)] at hword
        exact absurd hword (mappedWord_ne_zero a)
      · refine ⟨fun h' => ⟨?_, hne⟩, fun h' => h'.1.set_slot hi (by omega) hj (mappedWord_lt a) hne⟩
        obtain ⟨h₁, h₂, hword⟩ := h'
        rw [image.get32_slot (by omega) (by omega) hj (by omega) (by omega) (by omega) (mappedWord_lt a),
          if_neg (by omega)] at hword
        exact ⟨h₁, h₂, hword⟩

/-- Two free pages are enough for two mappings. -/
theorem TwoFree.kmap (h : TwoFree image m) (hk : KernelDirectory m image) {a b : Nat}
    (ha : kernIdentityPhysEnd ≤ a) (hb : kernIdentityPhysEnd ≤ b) :
    WindowPages (Mm.kmap image.dir m a).2 (Mm.kmap image.dir (Mm.kmap image.dir m a).1 b).2 := by
  obtain ⟨n, n', hne, hn, hn'⟩ := h
  obtain ⟨⟨hlow, hlt, -⟩, hkept⟩ := hn.kmap hk ha
  have hk' := hk.of_tables fun _ hf => kmap_frames hk a hf
  have hrest : ∃ n, FreePage image (Mm.kmap image.dir m a).1 n := by
    by_cases he : n = (Mm.kmap image.dir m a).2 / 4096
    · exact ⟨n', (hkept n').2 ⟨hn', by omega⟩⟩
    · exact ⟨n, (hkept n).2 ⟨hn, he⟩⟩
  obtain ⟨n₁, hn₁⟩ := hrest
  obtain ⟨hfree, -⟩ := hn₁.kmap hk' hb
  have hapart := ((hkept _).1 hfree).2
  obtain ⟨hlow', hlt', -⟩ := hfree
  exact ⟨by omega, by omega, by omega, by omega, hapart.symm⟩

/-- Dropping two mappings leaves their pages free. -/
theorem WindowPages.kunmap (h : WindowPages v v') (hk : KernelDirectory m image) :
    TwoFree image (Mm.kunmap image.dir (Mm.kunmap image.dir m v) v') := by
  obtain ⟨h₁, h₂, h₁', h₂', hne⟩ := h
  have hk' := hk.of_tables fun _ hf => kunmap_frames hk (by omega) h₂ hf
  have hslot : ∀ x, pageDirIdx x = x / 4096 / 1024 ∧ pageTblIdx x = x / 4096 % 1024 := by
    intro x
    simp only [pageDirIdx, pageTblIdx]
    omega
  have hzero : ∀ {m : Mem} {x}, 0xF8000000 ≤ x → x < 4294967296 → FreePage image
      (m.set32 (image.slot (pageDirIdx x) (pageTblIdx x)) 0) (x / 4096) := by
    intro m x hx hx'
    refine ⟨by omega, by omega, ?_⟩
    rw [(hslot x).1, (hslot x).2]
    exact Mem.get32_set32_self _ _ (by decide)
  rw [kunmap_eq hk' (by omega) h₂', kunmap_eq hk (by omega) h₂]
  refine ⟨v / 4096, v' / 4096, hne, ?_, hzero h₁' h₂'⟩
  refine (hzero h₁ h₂).set_slot ?_ ?_ ?_ (by decide) ?_
  · rw [(hslot v').1]
    omega
  · rw [(hslot v').1]
    omega
  · rw [(hslot v').2]
    omega
  · rw [(hslot v').1, (hslot v').2]
    omega

/-! ## The call -/

theorem UserSpaces.createReady (hi : UserSpaces image first Opened k Held) : CreateReady image k := by
  obtain ⟨kp, kernelProc, calls, ht⟩ := hi.spaces.table
  obtain ⟨live, hgrown, -⟩ := ht.heap
  refine ⟨hi.spaces.linked, hi.spaces.own.kernel, ?_, fun i h₀ h₁ hne hunused => ?_⟩
  · rcases hgrown.shape with ⟨bs, b, hi, -⟩ | hex
    · exact Or.inl ⟨_, hi.layout⟩
    · exact Or.inr hex
  · rw [(ht.entries i h₀ h₁ hne).running] at hunused
    cases hunused

/-- Frames to be had are taken. -/
theorem Pmm.takes {s : Pmm} {flags : PmmFlags} {count : Nat}
    (h : Mm.allocPages s.framemap flags count = some (base, fm)) (hne : base ≠ 0) :
    ∃ s', s.allocPages flags count = some (s', base) ∧ s'.framemap = fm ∧ s'.mem = s.mem ∧
      s'.failed = s.failed := by
  refine ⟨_, Pmm.allocPages_of_eq_some h, rfl, rfl, ?_⟩
  rw [beq_false_of_ne hne, Bool.or_false]

/-- The part from `create_proc` on, when all of it succeeds. -/
theorem makeUserProcMapped_done {k₁ k₂ k₃ : Kernel} {a b : Nat} (hcreate : CreateStep image k (messageCall, p) k₁)
    (hp : p ≠ 0) (hcode : procMapPages k₁ p userTestCodeVa a 1 true = some (k₂, true))
    (hdata : procMapPages k₂ p userTestDataVa b 1 true = some (k₃, true)) :
    makeUserProcMapped image k a b v v' = some (k₃.kunmapBoth image v v', p) := by
  have hcreate' : createProc image k userTestCodeVa 0 pageSize 0 .normal = some (k₁, p) := hcreate
  rw [makeUserProcMapped, hcreate', Option.bind_eq_bind, Option.bind_some]
  dsimp only
  rw [if_neg hp, hcode, Option.bind_eq_bind, Option.bind_some]
  dsimp only
  rw [if_neg (by decide), hdata, Option.bind_some]
  rfl

@[simp] theorem Kernel.kunmapBoth_failed : (k.kunmapBoth image v v').pmm.failed = k.pmm.failed := rfl

@[simp] theorem Kernel.kunmapBoth_procList : (k.kunmapBoth image v v').procList = k.procList := rfl

@[simp] theorem Kernel.kunmapBoth_procs : (k.kunmapBoth image v v').procs = k.procs := rfl

/-- The mappings are dropped in the kernel's tables. -/
theorem Kernel.kunmapBoth_frames {f : Nat} (hk : KernelDirectory k.pmm.mem image)
    (hv : 0xC0000000 ≤ v ∧ v < 4294967296) (hv' : 0xC0000000 ≤ v' ∧ v' < 4294967296)
    (hf : ¬ KernelTable image f) : k.pmm.mem.SameFrame (k.kunmapBoth image v v').pmm.mem f :=
  (kunmap_frames hk hv.1 hv.2 hf).trans
    (kunmap_frames (hk.of_tables fun _ hf => kunmap_frames hk hv.1 hv.2 hf) hv'.1 hv'.2 hf)

/-- The part before it. -/
theorem makeUserProcWithMessage_written {s₁ s₂ s₃ s₄ : Pmm} {a b : Nat}
    (hcode : k.pmm.allocPages pmmFlagsHighmem 1 = some (s₁, a))
    (hdata : s₁.allocPages pmmFlagsHighmem 1 = some (s₂, b)) (ha : a ≠ 0) (hb : b ≠ 0)
    (hmap : s₂.kmap image.dir a = (s₃, v)) (hmap' : s₃.kmap image.dir b = (s₄, v')) (hv : v ≠ 0)
    (hv' : v' ≠ 0) (hwrite : writeUserPages k.cr3 v v' msg s₄.mem = some m) :
    makeUserProcWithMessage image k (some msg) =
      makeUserProcMapped image { k with pmm := { s₄ with mem := m } } a b v v' := by
  rw [makeUserProcWithMessage, hcode, Option.bind_eq_bind, Option.bind_some]
  dsimp only
  rw [hdata, Option.bind_some]
  dsimp only
  rw [if_neg (not_or.2 ⟨ha, hb⟩), hmap, hmap', if_neg (not_or.2 ⟨hv, hv'⟩), hwrite, Option.bind_eq_bind,
    Option.bind_some]

/-- A frame that is held is mapped, and all that is held keeps its bytes. -/
theorem PagesOwn.maps_page (hp : PagesOwn image first k.pmm Ds Held) (ho : OwnTables image k.pmm Ds Opened)
    (hl : image.Linked) (hD : Ds D) (hlow : D < lowFrames) (hne : p ≠ 0)
    (hdir : (k.procs p).pageDirectory = kp2v (4096 * D))
    (halloc : Mm.allocPages k.pmm.framemap pmmFlagsDefault 1 = some (base, fm)) (hbase : base ≠ 0)
    (huser : va < 0xC0000000) (hF : Held F) : ∃ s', procMapPages k p va (4096 * F) 1 w =
        some ({ k with pmm := s' }, true) ∧ s'.failed = k.pmm.failed ∧
      (s'.framemap = k.pmm.framemap ∨ s'.framemap = fm) ∧ OwnTables image s' Ds Opened ∧
      PagesOwn image first s' Ds (fun f => Held f ∧ f ≠ F) ∧ ∀ f, Held f → k.pmm.mem.SameFrame s'.mem f := by
  have hidx : pageDirIdx va < 768 := by
    simp only [pageDirIdx]
    omega
  obtain ⟨s', hpage, hcall, hok, hframes⟩ :=
    ho.maps_page hl hD hlow hne hdir halloc hbase (show va < 4294967296 by omega) (4096 * F) w
  have hmaps : MapsInto image D (fun _ => Opened D) (· < 768) k.pmm s' :=
    (ho.mapsInto hl hD).turn (by omega) hidx hpage
  have hin := (hp.held F hF).inside
  have hphys : pageVirt (4096 * F) 0 / 4096 = F := by
    rw [pageVirt_frame (by omega)]
    omega
  have hpages := hp.turn ho hl hD (by omega) hidx (pageVirt_lt _ 0) (by rw [hphys]; exact hF) hpage
  rw [hphys] at hpages
  refine ⟨s', hcall, hok, hframes, ho.mapped hl hD hmaps fun i h₀ _ hlt => absurd hlt (by omega), hpages,
    fun f hf => ?_⟩
  have hframe := hp.held f hf
  exact hmaps.sameFrame hframe.used (hframe.directory D hD).1 (hframe.directory D hD).2 (hframe.table D hD)
    fun i h₀ _ hlt => absurd hlt (by omega)

/-- The part from `create_proc` on maps both pages, whatever lies in the directories that are not among
`Ds`, and keeps the bytes of what is held. -/
theorem CreateReady.maps_message (hk : CreateReady image k) (ht : TableInv kp kernelProc calls k)
    (ho : OwnTables image k.pmm Ds Opened) (hp : PagesOwn image first k.pmm Ds Held)
    (hF : Held F) (hF' : Held F') (hapart : F ≠ F') (hfailed : k.pmm.failed = false)
    (hleft : SpaceLeft k.pmm.framemap fm₃ fm₄ fm₅) (hslot : findEmptySlot k 1 (maxProc - 1) = some i)
    (hblock : (Mm.kmalloc k.heap sizeofProc).2 = p) (hne : p ≠ 0)
    (hstack : (Mm.kmalloc (Mm.kmalloc k.heap sizeofProc).1 8192).2 ≠ 0) :
    ∃ k', (∀ v v', makeUserProcMapped image k (4096 * F) (4096 * F') v v' = some (k'.kunmapBoth image v v', p)) ∧
      MessageMapped image k k' p i fm₃ fm₄ fm₅ ∧
      ∀ f, ¬ KernelTable image f → f ≠ F → Held f → k.pmm.mem.SameFrame k'.pmm.mem f := by
  have hl := hk.linked
  obtain ⟨⟨base, fm', hdir⟩, hspace, ⟨t, ht₀, htable⟩, ⟨t', ht₀', htable'⟩⟩ := hleft
  obtain ⟨k₁, hcreate, hmade⟩ := @CreateReady.makes _ _ messageCall _ _ _ _ _ _ hk hslot hblock hne hspace hdir
  have hok₁ := hk.succeeds hfailed hcreate hne ⟨⟨_, hspace⟩, hstack⟩
  obtain ⟨D, stackPhys, hnew, hmem⟩ : ∃ D stackPhys, ProcessMade k k₁ userTestCodeVa p D ∧
      SpaceMade image first Ds Opened Held pageSize D stackPhys k.pmm k₁.pmm := by
    rcases hcreate.cases ht hl ho hp hok₁ with ⟨hz, -⟩ | ⟨-, hdone⟩
    · exact absurd hz hne
    · exact hdone
  have hp₁ := hmem.pages.mono (fun _ h => h) fun f (hf : Held f) => Or.inl hf
  have hlow := hmem.place
  rw [← hmade.framemap] at htable
  obtain ⟨s₂, hcode, hok₂, hframes₂, ho₂, hp₂, hsame₂⟩ := hp₁.maps_page hmem.own hl (Or.inl rfl) (by omega) hne
    hnew.directory htable ht₀ (show userTestCodeVa < 0xC0000000 by decide) hF (w := true)
  obtain ⟨t₂, fm₂, ht₂, htable₂, hlast⟩ : ∃ t₂ fm₂, t₂ ≠ 0 ∧
      Mm.allocPages s₂.framemap pmmFlagsDefault 1 = some (t₂, fm₂) ∧ (fm₂ = fm₄ ∨ fm₂ = fm₅) := by
    rcases hframes₂ with he | he
    · exact ⟨t, _, ht₀, by rw [he]; exact htable, Or.inl rfl⟩
    · exact ⟨t', _, ht₀', by rw [he]; exact htable', Or.inr rfl⟩
  obtain ⟨s₃, hdata, hok₃, hframes₃, ho₃, -, hsame₃⟩ := hp₂.maps_page (k := { k₁ with pmm := s₂ }) ho₂ hl
    (Or.inl rfl) (by omega) hne hnew.directory htable₂ ht₂ (show userTestDataVa < 0xC0000000 by decide)
    ⟨hF', hapart.symm⟩ (w := true)
  refine ⟨_, fun v v' => makeUserProcMapped_done hcreate hne hcode hdata, ⟨(hok₃.trans hok₂).trans hok₁, ?_,
    hmade.heap, hmade.list, hmade.others, ho₃.kernel.directory⟩, fun f hkernel hapart hf => ?_⟩
  · rcases hframes₃ with he | he
    · rcases hframes₂ with he' | he'
      · exact Or.inl (he.trans (he'.trans hmade.framemap))
      · exact Or.inr (Or.inl (he.trans he'))
    · rw [show _ = fm₂ from he]
      exact Or.inr hlast
  · exact ((hmem.mem f (hp.held f hf).used fun hT => absurd hT hkernel).trans (hsame₂ f hf)).trans
      (hsame₃ f ⟨hf, hapart⟩)

/-- The part from `create_proc` on, the pages being filled. -/
theorem UserSpaces.makes_mapped {fm₀ fm₁ fm₂ : FrameMap} {a b : Nat} (hv : WindowPages v v')
    (hi : UserSpaces image first Opened k fun f => (Held f ∨ f = F) ∨ f = F') (hapart : F ≠ F')
    (hfailed : k.pmm.failed = false) (hf : MessageFrames fm₀ fm₁ fm₂ fm₃ fm₄ fm₅ a b)
    (hframes : k.pmm.framemap = fm₂) (hslot : findEmptySlot k 1 (maxProc - 1) = some i)
    (hblock : (Mm.kmalloc k.heap sizeofProc).2 = p) (hp : p ≠ 0)
    (hstack : (Mm.kmalloc (Mm.kmalloc k.heap sizeofProc).1 8192).2 ≠ 0) :
    ∃ k', makeUserProcMapped image k (4096 * F) (4096 * F') v v' = some (k', p) ∧
      MessageMade image k k' p i fm₃ fm₄ fm₅ := by
  obtain ⟨kp, kernelProc, calls, ht⟩ := hi.spaces.table
  obtain ⟨k₃, hcall, hdone, -⟩ := hi.createReady.maps_message ht hi.spaces.own hi.pages (Or.inl (Or.inr rfl))
    (Or.inr rfl) hapart hfailed (by rw [hframes]; exact hf.toSpaceLeft) hslot hblock hp hstack
  exact ⟨_, hcall v v', ⟨hdone.failed, hdone.frames, hdone.heap, hdone.list, hv.kunmap hdone.directory⟩⟩

/-- With all to be had, the call makes its process. -/
theorem UserSpaces.makes_message (hi : UserSpaces image first Opened k Held)
    (hready : MessageReady image k p i fm₃ fm₄ fm₅) (hfailed : k.pmm.failed = false)
    (hmsg : msg.length < 4096) :
    ∃ k', makeUserProcWithMessage image k (some msg) = some (k', p) ∧
      MessageMade image k k' p i fm₃ fm₄ fm₅ := by
  obtain ⟨⟨fm₁, fm₂, a, b, hf⟩, hwindow, hslot, ⟨hblock, hp⟩, hstack⟩ := hready
  obtain ⟨-, -, hne, -⟩ := hi.takeFrame (Pmm.allocPages_of_eq_some hf.code)
  obtain ⟨s₁, hcode, hs₁, hmem₁, hok₁⟩ := Pmm.takes hf.code hne
  obtain ⟨F₁, -, -, -, -, hi₁⟩ := hi.takeFrame hcode
  have hsecond := hf.data
  rw [← hs₁] at hsecond
  obtain ⟨-, -, hne', -⟩ := hi₁.takeFrame (Pmm.allocPages_of_eq_some hsecond)
  obtain ⟨s₂, hdata, hs₂, hmem₂, hok₂⟩ := Pmm.takes hsecond hne'
  have hmem : s₂.mem = k.pmm.mem := hmem₂.trans hmem₁
  have hpages := hwindow.kmap hi.spaces.own.kernel.directory hf.high.1 hf.high.2
  rw [← hmem] at hpages
  have hv : (Mm.kmap image.dir s₂.mem a).2 ≠ 0 := by
    have := hpages.low
    omega
  have hv' : (Mm.kmap image.dir (Mm.kmap image.dir s₂.mem a).1 b).2 ≠ 0 := by
    have := hpages.low'
    omega
  obtain ⟨F, F', m, rfl, rfl, hwrite, hfilled⟩ := hi.fillPages hcode hdata hmsg hv hv'
  have hok : ((s₂.kmap image.dir (4096 * F)).1.kmap image.dir (4096 * F')).1.failed = false := by
    show ((s₂.failed || (Mm.kmap image.dir s₂.mem (4096 * F)).2 == 0) ||
      (Mm.kmap image.dir (Mm.kmap image.dir s₂.mem (4096 * F)).1 (4096 * F')).2 == 0) = false
    rw [beq_false_of_ne hv, beq_false_of_ne hv', hok₂, hok₁, hfailed]
    rfl
  have hslot' := (findEmptySlot_congr rfl (fun _ => rfl) _ _).trans hslot
  obtain ⟨k', hmapped, hmade⟩ :=
      hfilled.spaces.makes_mapped hpages hfilled.apart hok hf hs₂ hslot' hblock hp hstack
  refine ⟨k', ?_, ⟨hmade.failed, hmade.frames, hmade.heap, hmade.list, hmade.window⟩⟩
  rw [makeUserProcWithMessage_written hcode hdata hne hne' rfl rfl hv hv' hwrite]
  exact hmapped

/-! ## A kernel that is ready -/

/-- The frames of a call, where both zones are used from the bottom up. -/
theorem messageFrames_usedTo {lo hi : Nat} (h : UsedTo fm lo hi) (hlo : 1 ≤ lo) (hlo' : lo + 5 ≤ 0x38000)
    (hhi : 0x38000 ≤ hi) (hhi' : hi + 4 ≤ nFrames) :
    ∃ fm₁ fm₂ fm₃ fm₄ fm₅, MessageFrames fm fm₁ fm₂ fm₃ fm₄ fm₅ (4096 * hi) (4096 * (hi + 1)) ∧
      UsedTo fm₃ (lo + 3) (hi + 4) ∧ UsedTo fm₄ (lo + 4) (hi + 4) ∧ UsedTo fm₅ (lo + 5) (hi + 4) := by
  obtain ⟨fm₁, hcode, h₁⟩ := h.highmem hlo (by omega) hhi (Nat.le_refl 1) (by omega)
  obtain ⟨fm₂, hdata, h₂⟩ := h₁.highmem hlo (by omega) (by omega) (Nat.le_refl 1) (by omega)
  obtain ⟨fm', fm₃, hdir, hspace, h₃⟩ := spaceFrames_usedTo h₂ hlo (by omega) (by omega) hhi'
    (show stackPages pageSize = 2 from rfl) (by decide) (by decide)
  obtain ⟨fm₄, htable, h₄⟩ := h₃.default (by omega) (Nat.le_refl 1) (by omega)
  obtain ⟨fm₅, htable', h₅⟩ := h₄.default (by omega) (Nat.le_refl 1) (by omega)
  refine ⟨fm₁, fm₂, fm₃, fm₄, fm₅,
    ⟨⟨⟨_, _, hdir⟩, hspace, ⟨_, ?_, htable⟩, ⟨_, ?_, htable'⟩⟩, hcode, hdata, ?_⟩, h₃, h₄, h₅⟩
  · omega
  · omega
  · simp only [kernIdentityPhysEnd]
    omega

theorem pagedKernel_twoFree : TwoFree sampleImage pagedKernel.pmm.mem := by
  have hempty : HighmemEmpty (fun _ => 0) sampleImage := fun _ _ _ _ _ => rfl
  have hzero : ∀ n, 1015808 ≤ n → n < 1048576 → FreePage sampleImage pagedKernel.pmm.mem n := by
    intro n h₁ h₂
    refine ⟨h₁, h₂, not_not.1 fun hne => ?_⟩
    obtain ⟨x, hx, -⟩ := ((highmemStart_inv hempty).taken (n / 1024) (by omega) (by omega) (n % 1024)
      (by omega)).1 hne
    cases hx
  exact ⟨1015808, 1015809, by decide, hzero _ (by decide) (by decide), hzero _ (by decide) (by decide)⟩

/-- The first process with a message after boot, and what is left for a second one. -/
structure FirstMessage (msg : List Byte) (k k₁ : Kernel) : Prop where
  boot : PagedBoot pagedKernel k bootFrames
  call : makeUserProcWithMessage sampleImage k (some msg) = some (k₁, 0xC04000A0)
  done : MessageDone sampleImage k.pmm.framemap Closed k (fun _ => False) msg k₁ 0xC04000A0
  failed : k₁.pmm.failed = false
  frames : ∃ lo, 1 ≤ lo ∧ lo ≤ 2053 ∧ UsedTo k₁.pmm.framemap lo 0x38004
  window : TwoFree sampleImage k₁.pmm.mem
  list : k₁.procList = Function.update k.procList 1 0xC04000A0
  slot : findEmptySlot k₁ 1 (maxProc - 1) = some 2
  block : (Mm.kmalloc k₁.heap sizeofProc).2 = 0xC0402150
  stack : (Mm.kmalloc (Mm.kmalloc k₁.heap sizeofProc).1 8192).2 ≠ 0

theorem first_message (hlen : msg.length < 4096) : ∃ k k₁, FirstMessage msg k k₁ := by
  obtain ⟨k, h⟩ := pagedKernel_boots
  obtain ⟨fm₁, fm₂, fm₃, fm₄, fm₅, hfirst, h₃, h₄, h₅⟩ :=
    messageFrames_usedTo bootFrames_usedTo (by decide) (by decide) (by decide) (by decide)
  have hwindow : TwoFree sampleImage k.pmm.mem := by
    rw [h.boot.booted.mem]
    exact pagedKernel_twoFree
  have hi := h.boot.userSpaces pagedKernel_loaded sampleImage_linked rfl
  rw [← h.framemap] at hfirst
  obtain ⟨k₁, hcall, hmade⟩ := hi.makes_message
    ⟨⟨fm₁, fm₂, _, _, hfirst⟩, hwindow, h.slot, ⟨h.block, by decide⟩, h.stack⟩ h.failed hlen
  have hdone := hi.message hlen hcall hmade.failed
  obtain ⟨-, -, hrunning, -⟩ := hdone.made (by decide)
  refine ⟨k, k₁, h, hcall, hdone, hmade.failed, ?_, hmade.window, hmade.list,
    findEmptySlot_second hmade.list (by decide) (by rw [hrunning]; decide) h.empty.2, ?_, ?_⟩
  · rcases hmade.frames with h | h | h
    · exact ⟨2051, by decide, by decide, h ▸ h₃⟩
    · exact ⟨2052, by decide, by decide, h ▸ h₄⟩
    · exact ⟨2053, by decide, by decide, h ▸ h₅⟩
  · rw [hmade.heap]
    exact h.block'
  · rw [hmade.heap]
    exact h.stack'

/-- Two processes with a message each, in the slots 1 and 2, and no allocation has failed. -/
theorem two_message_processes {msg' : List Byte} (hlen : msg.length < 4096) (hlen' : msg'.length < 4096) :
    ∃ k k₁ k₂, Boot sampleImage pagedKernel k ∧
      UserStep sampleImage ⟨k, fun _ => False⟩ (.message msg 0xC04000A0) ⟨k₁, fun _ => False⟩ ∧
      UserStep sampleImage ⟨k₁, fun _ => False⟩ (.message msg' 0xC0402150) ⟨k₂, fun _ => False⟩ ∧
      k₂.pmm.failed = false ∧ k₂.procList 0 = 0xC0400010 ∧ k₂.procList 1 = 0xC04000A0 ∧
      k₂.procList 2 = 0xC0402150 := by
  obtain ⟨k, k₁, h⟩ := @first_message msg hlen
  obtain ⟨lo, hlo, hlo', hused⟩ := h.frames
  obtain ⟨gm₁, gm₂, gm₃, gm₄, gm₅, hframes, -⟩ :=
    messageFrames_usedTo hused hlo (by omega) (by decide) (by decide)
  obtain ⟨k₂, hcall', hmade'⟩ := h.done.unseen.spaces.makes_message
    ⟨⟨gm₁, gm₂, _, _, hframes⟩, h.window, h.slot, ⟨h.block, by decide⟩, h.stack⟩ h.failed hlen'
  refine ⟨k, k₁, k₂, h.boot.boot, ⟨hlen, h.call, rfl⟩, ⟨hlen', hcall', rfl⟩, hmade'.failed, ?_, ?_, ?_⟩
  · rw [hmade'.list, h.list, Function.update_of_ne (by decide), Function.update_of_ne (by decide)]
    exact h.boot.kernelSlot
  · rw [hmade'.list, h.list, Function.update_of_ne (by decide)]
    exact Function.update_self _ _ _
  · rw [hmade'.list]
    exact Function.update_self _ _ _

end MessageReady

end BrownieOS.Process
