import BrownieOS.Mm.UserBits
import BrownieOS.Process.AllOrNothing
import BrownieOS.Process.OwnTables

/-!
# `proc_map_pages` and the other processes

From boot on, processes are made, pages are mapped into them below 3 GiB, frames are taken
and bytes are stored outside all directories. Then a further call of `proc_map_pages` for
pages below 3 GiB changes no translation of a process with another directory, and no address
above 3 GiB is open to user mode. Nothing checks the range: a page above 3 GiB is mapped for
user mode too, in a table that all directories share.
-/
namespace BrownieOS.Process

open BrownieOS.Lib BrownieOS.Lib.Word32 BrownieOS.Mm

/-- A process of the table but the kernel's: one that `create_proc` has made. -/
def UserProcess (k : Kernel) (p : Nat) : Prop :=
  p ≠ 0 ∧ ∃ i, 0 < i ∧ i < maxProc ∧ k.procList i = p

/-- All the pages lie below 3 GiB. -/
def UserPages (virt pages : Nat) : Prop := ∀ i < pages, pageVirt virt i < 0xC0000000

/-- The frame `D` is that of a process's directory. -/
def SpaceOf (k : Kernel) (D : Nat) : Prop :=
  D + 1 < lowFrames ∧ ∃ p, UserProcess k p ∧ (k.procs p).pageDirectory = kp2v (4096 * D)

/-- What happens once the kernel is up. -/
inductive SpaceEvent
  | create (c : CreateCall) (r : Nat)
  | map (proc virt phys pages : Nat) (writable ok : Bool)
  | alloc (flags : PmmFlags) (count base : Nat)
  | store (paddr : Nat) (c : Byte)

/-- A process made, its stack below 3 GiB; pages below 3 GiB mapped into one; frames taken;
a byte stored in no directory. Each with any result. -/
def EventStep (image : KernelImage) (k : Kernel) : SpaceEvent → Kernel → Prop
  | .create c r, k' => UserPages (stackBottomAl c.stackSize) (stackPages c.stackSize) ∧
      CreateStep image k (c, r) k'
  | .map proc virt phys pages writable ok, k' => UserProcess k proc ∧ UserPages virt pages ∧
      procMapPages k proc virt phys pages writable = some (k', ok)
  | .alloc flags count base, k' => ∃ s', k.pmm.allocPages flags count = some (s', base) ∧
      k' = { k with pmm := s' }
  | .store paddr c, k' =>
      (∀ D, D = image.dirFrame ∨ SpaceOf k D → paddr / 4096 ≠ D ∧ paddr / 4096 ≠ D + 1) ∧
      k' = { k with pmm := { k.pmm with mem := Function.update k.pmm.mem paddr c } }

/-- A call for `p` has left every translation of `q` as it was, and no address above 3 GiB is
open to user mode in the directory of `p`. -/
structure MapConfined (k k' : Kernel) (p q : Nat) : Prop where
  other : ∀ va < 4294967296, walk k'.pmm.mem (kv2p (k'.procs q).pageDirectory) va =
    walk k.pmm.mem (kv2p (k.procs q).pageDirectory) va
  kernelHalf : ∀ va, 0xC0000000 ≤ va → va < 4294967296 →
    userAccessible k'.pmm.mem (kv2p (k'.procs p).pageDirectory) va = false

/-- The state after `paging_init`, the BSS all zeros before it, and the first 4 MiB reserved. -/
structure Loaded (image : KernelImage) (s : Pmm) : Prop where
  memory : LoadedMemory image s.mem
  reserved : ∀ f < 1024, s.framemap.test f = true

/-- No directory lets user mode in above 3 GiB. -/
def Closed : Nat → Prop := fun _ => False

/-- The invariant: every process has a directory, with tables of its own. Those of `Opened` may
let user mode in above 3 GiB. -/
structure SpacesOwn (image : KernelImage) (Opened : Nat → Prop) (k : Kernel) : Prop where
  linked : image.Linked
  table : ∃ kp kernelProc calls, TableInv kp kernelProc calls k
  placed : ∀ p, UserProcess k p → ∃ D, SpaceOf k D ∧ (k.procs p).pageDirectory = kp2v (4096 * D)
  own : OwnTables image k.pmm (SpaceOf k) Opened

section Confined

variable {image : KernelImage} {k₀ k k' : Kernel} {s s' : Pmm} {Ds Opened : Nat → Prop}
  {D p q virt phys pages : Nat} {w ok : Bool} {e : SpaceEvent} {es : List SpaceEvent}

theorem Loaded.paged (h : Loaded image s) : Paged image s := by
  obtain ⟨m₀, hzero, hmem⟩ := h.memory
  refine ⟨⟨m₀, fun i hi => ?_, hmem⟩, h.reserved⟩
  have hword : m₀.word image.dirFrame i = 0 := by
    rw [(hzero _ (Or.inl rfl)).word (by omega)]
    rfl
  rw [Mem.word, ← image.kv2p_dir] at hword
  exact hword

theorem OwnTables.mono {Ds' Opened' : Nat → Prop} (ho : OwnTables image s Ds Opened)
    (hD : ∀ D, Ds' D → Ds D) (hopen : ∀ D, Ds' D → Opened D → Opened' D) :
    OwnTables image s Ds' Opened' where
  kernel := ho.kernel
  closed := ho.closed
  directory := fun D h => ho.directory D (hD D h)
  place := fun D h => ho.place D (hD D h)
  apart := fun D D' h h' => ho.apart D D' (hD D h) (hD D' h')
  kernelHalf := fun D h =>
    have hk := ho.kernelHalf D (hD D h)
    ⟨hk.present, hk.frame, fun i h₀ h₁ hu => hopen D h (hk.user i h₀ h₁ hu)⟩
  tables := fun D h T hT =>
    have ht := ho.tables D (hD D h) T hT
    ⟨ht.1, ht.2.1, fun D' h' => ht.2.2 D' (hD D' h')⟩
  unshared := fun D D' h h' => ho.unshared D D' (hD D h) (hD D' h')

/-- The entries of the directory that pages fall under. -/
def PageEntries (virt pages i : Nat) : Prop := ∃ l < pages, i = pageDirIdx (pageVirt virt l)

theorem UserPages.entries (h : UserPages virt pages) {i : Nat} (hi : PageEntries virt pages i) :
    i < 768 := by
  obtain ⟨l, hl, rfl⟩ := hi
  have := h l hl
  simp only [pageDirIdx]
  omega

theorem PageEntries.opened (hopen : ¬ UserPages virt pages → Opened D) (i : Nat) (h₀ : 768 ≤ i)
    (_ : i < 1024) (hi : PageEntries virt pages i) : Opened D := by
  apply hopen
  intro huser
  have := huser.entries hi
  omega

/-- Mapping pages into the directory of a process, whatever comes of it. -/
theorem OwnTables.mapPages (ho : OwnTables image s Ds Opened) (hl : image.Linked) (hD : Ds D)
    (hopen : ¬ UserPages virt pages → Opened D)
    (h : procMapLoop (kp2v (4096 * D)) virt phys w 0 pages s = some (s', ok)) :
    OwnTables image s' Ds Opened ∧
      MapsInto image D (fun _ => Opened D) (PageEntries virt pages) s s' := by
  have hmaps : MapsInto image D (fun _ => Opened D) (PageEntries virt pages) s s' :=
    (ho.mapsInto hl hD).loop (fun l hlt => ⟨l, hlt, rfl⟩) h
  exact ⟨ho.mapped hl hD hmaps (PageEntries.opened hopen), hmaps⟩

/-- What follows the PID adds one directory, open above 3 GiB only if its stack reaches there. -/
theorem DirectoryOutcome.ownTables {procIdx entry stackSize r : Nat}
    (h : DirectoryOutcome image k p procIdx entry stackSize k' r) (hl : image.Linked)
    (ho : OwnTables image k.pmm Ds Opened) : ∃ D, D + 1 < lowFrames ∧
      (k'.procs p).pageDirectory = kp2v (4096 * D) ∧
      OwnTables image k'.pmm (fun D' => D' = D ∨ Ds D') fun D' => Opened D' ∨
        D' = D ∧ ¬ UserPages (stackBottomAl stackSize) (stackPages stackSize) := by
  have h0 := ho.kernel.reserved 0 (by decide)
  have hmapped : ∀ {dirPhys stackPhys s s' ok},
      SpaceBuilt image k.cr3 stackSize k.pmm dirPhys stackPhys s →
      mapStack (kp2v dirPhys) stackSize stackPhys s = some (s', ok) → ∃ D, D + 1 < lowFrames ∧
        kp2v dirPhys = kp2v (4096 * D) ∧ OwnTables image s' (fun D' => D' = D ∨ Ds D') fun D' =>
          Opened D' ∨ D' = D ∧ ¬ UserPages (stackBottomAl stackSize) (stackPages stackSize) := by
    intro dirPhys stackPhys s s' ok hbuilt hmap
    obtain ⟨D, rfl, -, hn⟩ := newDirectory_of_built ho.kernel hl hbuilt
    have hpages := (hbuilt.stack h0).2
    have hnew : OwnTables image s (fun D' => D' = D ∨ Ds D') fun D' => Opened D' ∨
        D' = D ∧ ¬ UserPages (stackBottomAl stackSize) (stackPages stackSize) :=
      (ho.newDirectory hl hn).mono (fun _ h => h) fun _ _ h => Or.inl h
    unfold mapStack at hmap
    rw [if_neg hpages] at hmap
    obtain ⟨hown, -⟩ := hnew.mapPages hl (Or.inl rfl) (fun hout => Or.inr ⟨rfl, hout⟩) hmap
    exact ⟨D, hn.low, rfl, hown⟩
  cases h with
  | noStack hbuilt => exact absurd rfl (hbuilt.stack h0).1
  | noTable hbuilt hz hmap =>
    obtain ⟨D, hlow, hptr, hown⟩ := hmapped hbuilt hmap
    exact ⟨D, hlow, by simpa [Kernel.withSpace, spaceProc] using hptr, hown⟩
  | done hbuilt hz hmap =>
    obtain ⟨D, hlow, hptr, hown⟩ := hmapped hbuilt hmap
    rw [createProcFinish_eq]
    refine ⟨D, hlow, by simpa [Kernel.withSpace, spaceProc, finishedProc] using hptr, ?_⟩
    exact hown.of_sameFrame (fun _ hf => hf) (.refl _ _) (.refl _ _) fun _ _ => ⟨.refl _ _, .refl _ _⟩

/-! ## Runs -/

theorem kp2v_frame_inj (hD : D + 1 < lowFrames) {D' : Nat} (hD' : D' + 1 < lowFrames)
    (h : kp2v (4096 * D) = kp2v (4096 * D')) : D = D' := by
  rw [kp2v_frame_eq (by omega), kp2v_frame_eq (by omega)] at h
  omega

/-- Where processes and their records stay, only memory and frames are looked at. -/
theorem SpacesOwn.keep (hi : SpacesOwn image Opened k) (hlist : k'.procList = k.procList)
    (hprocs : ∀ q, UserProcess k q → k'.procs q = k.procs q)
    (ht : ∃ kp kernelProc calls, TableInv kp kernelProc calls k')
    (hown : OwnTables image k'.pmm (SpaceOf k) Opened) : SpacesOwn image Opened k' := by
  have hsame : ∀ q, UserProcess k' q ↔ UserProcess k q := by
    intro q
    unfold UserProcess
    rw [hlist]
  have hspace : ∀ D, SpaceOf k' D ↔ SpaceOf k D := by
    intro D
    constructor
    · rintro ⟨hlow, q, hq, hdir⟩
      rw [hsame] at hq
      rw [hprocs q hq] at hdir
      exact ⟨hlow, q, hq, hdir⟩
    · rintro ⟨hlow, q, hq, hdir⟩
      exact ⟨hlow, q, (hsame q).2 hq, by rw [hprocs q hq]; exact hdir⟩
  refine ⟨hi.linked, ht, fun q hq => ?_, hown.mono (fun D h => (hspace D).1 h) fun _ _ h => h⟩
  rw [hsame] at hq
  obtain ⟨D, hD, hdir⟩ := hi.placed q hq
  exact ⟨D, (hspace D).2 hD, by rw [hprocs q hq]; exact hdir⟩

/-- The table does not look at memory, and of the bitmap at frame 0 alone. -/
theorem TableInv.withPmm {kp : Nat} {kernelProc : Proc} {calls : List (CreateCall × Nat)}
    (ht : TableInv kp kernelProc calls k)
    (hused : ∀ f, k.pmm.framemap.test f = true → s'.framemap.test f = true) :
    TableInv kp kernelProc calls { k with pmm := s' } :=
  ⟨hused 0 ht.frame0, ht.heap, ht.kernelSlot, ht.kernelNonNull, ht.kernelProc, ht.current, ht.entries,
    ht.distinct, ht.created⟩

theorem SpacesOwn.withPmm (hi : SpacesOwn image Opened k)
    (hused : ∀ f, k.pmm.framemap.test f = true → s'.framemap.test f = true)
    (hown : OwnTables image s' (SpaceOf k) Opened) : SpacesOwn image Opened { k with pmm := s' } := by
  obtain ⟨kp, kernelProc, calls, ht⟩ := hi.table
  exact hi.keep rfl (fun _ _ => rfl) ⟨kp, kernelProc, calls, ht.withPmm hused⟩ hown

theorem SpacesOwn.create {c : CreateCall} {r : Nat} (hi : SpacesOwn image Opened k)
    (huser : UserPages (stackBottomAl c.stackSize) (stackPages c.stackSize))
    (h : CreateStep image k (c, r) k') : SpacesOwn image Opened k' := by
  obtain ⟨kp, kernelProc, calls, ht⟩ := hi.table
  have ht' : ∃ kp kernelProc calls, TableInv kp kernelProc calls k' := ⟨_, _, _, ht.step h⟩
  have hcases := createProc_cases ht.frame0 h
  cases hcases with
  | noSlot _ => exact hi
  | noBlock hslot hnull =>
    obtain ⟨-, -, -, hclaim⟩ := ht.claim hslot
    rw [hclaim] at ht' ⊢
    exact hi.keep rfl (fun _ _ => rfl) ht' (hi.own.of_sameFrame (fun _ hf => hf) (.refl _ _)
      (.refl _ _) fun _ _ => ⟨.refl _ _, .refl _ _⟩)
  | @started i proc r k₁ k' hslot hblock hne hout =>
    obtain ⟨hi₀, hlt, hempty, hclaim⟩ := ht.claim hslot
    rw [hclaim] at hblock
    obtain ⟨rfl, rfl⟩ := Prod.mk.inj hblock
    obtain ⟨live, -, -, hnew⟩ := ht.kmalloc alignRequest_sizeofProc (by decide)
    obtain ⟨-, hnew⟩ := hnew hne
    have hf := hout.frame ht.frame0
    have hprocs : ∀ q, UserProcess k q → k'.procs q = k.procs q := by
      rintro q ⟨-, l, -, hl, rfl⟩
      exact (hf.others _ (hnew l hl)).trans (Function.update_of_ne (hnew l hl) _ _)
    have hstart : OwnTables image
        ((k.kmalloc sizeofProc).1.takePid (Mm.kmalloc k.heap sizeofProc).2 c.priority).pmm (SpaceOf k)
        Opened := hi.own.of_sameFrame (fun _ hf => hf) (.refl _ _) (.refl _ _)
      fun _ _ => ⟨.refl _ _, .refl _ _⟩
    obtain ⟨D, hlow, hptr, hown⟩ := hout.ownTables hi.linked hstart
    have hclosed : OwnTables image k'.pmm (fun D' => D' = D ∨ SpaceOf k D') Opened := by
      refine hown.mono (fun _ h => h) fun D' _ hopen => ?_
      rcases hopen with hopen | ⟨-, hout⟩
      · exact hopen
      · exact absurd huser hout
    rcases hout.slot ht.frame0 with ⟨-, hlist, -⟩ | ⟨-, hlist, -⟩
    · exact hi.keep hlist hprocs ht' (hclosed.mono (fun _ h => Or.inr h) fun _ _ h => h)
    · -- one process more, in the slot `i`
      have hold : ∀ q, UserProcess k q → UserProcess k' q := by
        rintro q ⟨hq, l, h₀, h₁, hlq⟩
        refine ⟨hq, l, h₀, h₁, ?_⟩
        rw [hlist, Function.update_of_ne]
        · exact hlq
        · rintro rfl
          exact hq (hlq ▸ hempty)
      have hcase : ∀ q, UserProcess k' q → q = (Mm.kmalloc k.heap sizeofProc).2 ∨ UserProcess k q := by
        rintro q ⟨hq, l, h₀, h₁, hlq⟩
        rw [hlist] at hlq
        by_cases he : l = i
        · left
          rw [← hlq, he]
          exact Function.update_self _ _ _
        · rw [Function.update_of_ne he] at hlq
          exact Or.inr ⟨hq, l, h₀, h₁, hlq⟩
      have hself : UserProcess k' (Mm.kmalloc k.heap sizeofProc).2 :=
        ⟨hne, i, hi₀, hlt, by rw [hlist]; exact Function.update_self _ _ _⟩
      refine ⟨hi.linked, ht', fun q hq => ?_, hclosed.mono ?_ fun _ _ h => h⟩
      · rcases hcase q hq with rfl | hq'
        · exact ⟨D, ⟨hlow, _, hself, hptr⟩, hptr⟩
        · obtain ⟨D', ⟨hlow', q', hq'', hdir'⟩, hdir⟩ := hi.placed q hq'
          exact ⟨D', ⟨hlow', q', hold q' hq'', by rw [hprocs q' hq'']; exact hdir'⟩,
            by rw [hprocs q hq']; exact hdir⟩
      · rintro D' ⟨hlow', q, hq, hdir⟩
        rcases hcase q hq with rfl | hq'
        · exact Or.inl (kp2v_frame_inj hlow' hlow (hdir.symm.trans hptr))
        · rw [hprocs q hq'] at hdir
          exact Or.inr ⟨hlow', q, hq', hdir⟩

/-- A call for pages below 3 GiB. -/
theorem SpacesOwn.mapPages (hi : SpacesOwn image Opened k) (hp : UserProcess k p)
    (huser : UserPages virt pages) (h : procMapPages k p virt phys pages w = some (k', ok)) :
    ∃ D s', SpaceOf k D ∧ (k.procs p).pageDirectory = kp2v (4096 * D) ∧ k' = { k with pmm := s' } ∧
      OwnTables image s' (SpaceOf k) Opened ∧
      MapsInto image D (fun _ => Opened D) (· < 768) k.pmm s' := by
  obtain ⟨D, hD, hdir⟩ := hi.placed p hp
  rcases procMapPages_cases h with ⟨-, rfl, -⟩ | ⟨s', hloop, rfl⟩
  · exact ⟨D, k'.pmm, hD, hdir, rfl, hi.own, hi.own.mapsInto hi.linked hD⟩
  · rw [hdir] at hloop
    have hmaps : MapsInto image D (fun _ => Opened D) (· < 768) k.pmm s' :=
      (hi.own.mapsInto hi.linked hD).loop (fun l hl => huser.entries ⟨l, hl, rfl⟩) hloop
    refine ⟨D, s', hD, hdir, rfl, hi.own.mapped hi.linked hD hmaps fun i h₀ _ hlt => ?_, hmaps⟩
    omega

theorem SpacesOwn.step (hi : SpacesOwn image Closed k) (h : EventStep image k e k') : SpacesOwn image Closed k' := by
  cases e with
  | create c r => exact hi.create h.1 h.2
  | map proc virt phys pages writable ok =>
    obtain ⟨hproc, huser, hcall⟩ := h
    obtain ⟨D, s', -, -, rfl, hown, hmaps⟩ := hi.mapPages hproc huser hcall
    exact hi.withPmm hmaps.writes.used hown
  | alloc flags count base =>
    obtain ⟨s', halloc, rfl⟩ := h
    have hg := Pmm.allocPages_grows (hi.own.kernel.reserved 0 (by decide)) halloc
    obtain ⟨-, heq⟩ := Pmm.allocPages_eq_some halloc
    have hmem : s'.mem = k.pmm.mem := by rw [heq]
    have hsame : ∀ f, k.pmm.mem.SameFrame s'.mem f := fun f => by
      rw [hmem]
      exact .refl _ f
    exact hi.withPmm hg.used (hi.own.of_sameFrame hg.used (hsame _) (hsame _)
      fun _ _ => ⟨hsame _, hsame _⟩)
  | store paddr c =>
    obtain ⟨hoff, rfl⟩ := h
    have hsame : ∀ D, D = image.dirFrame ∨ SpaceOf k D →
        k.pmm.mem.SameFrame (Function.update k.pmm.mem paddr c) D ∧
          k.pmm.mem.SameFrame (Function.update k.pmm.mem paddr c) (D + 1) := by
      intro D hD
      obtain ⟨h₀, h₁⟩ := hoff D hD
      exact ⟨Mem.sameFrame_update _ c h₀.symm, Mem.sameFrame_update _ c h₁.symm⟩
    exact hi.withPmm (fun _ hf => hf) (hi.own.of_sameFrame (fun _ hf => hf)
      (hsame _ (Or.inl rfl)).1 (hsame _ (Or.inl rfl)).2 fun D hD => hsame D (Or.inr hD))

theorem Boot.spacesOwn (hb : Boot image k₀ k) (hp : Loaded image k₀.pmm) (hl : image.Linked) :
    SpacesOwn image Closed k := by
  have hd := hb.booted
  have hkernel := (hb.pidInv hp.paged).space
  have hnone : ∀ p, ¬ UserProcess k p := by
    rintro p ⟨hne, i, h₀, h₁, rfl⟩
    apply hne
    rw [hd.table, Function.update_of_ne (by omega)]
    exact if_pos h₁
  have hempty : ∀ D, ¬ SpaceOf k D := fun D ⟨_, p, hproc, _⟩ => hnone p hproc
  refine ⟨hl, ⟨_, _, _, hb.tableInv⟩, fun p hproc => absurd hproc (hnone p), hkernel, ?_,
    fun D hD => absurd hD (hempty D), fun D hD => absurd hD (hempty D),
    fun D _ hD => absurd hD (hempty D), fun D hD => absurd hD (hempty D),
    fun D hD => absurd hD (hempty D), fun D _ hD => absurd hD (hempty D)⟩
  intro i _ h₁
  rw [hd.mem]
  exact hp.memory.noUser (Or.inl rfl) i h₁

theorem SpacesOwn.run (hb : Boot image k₀ k) (hp : Loaded image k₀.pmm) (hl : image.Linked)
    (hrun : Run (EventStep image) k es k') : SpacesOwn image Closed k' :=
  hrun.invariant (I := SpacesOwn image Closed) (fun _ _ _ hi h => hi.step h) (hb.spacesOwn hp hl)

/-- Whatever has happened since boot, pages mapped below 3 GiB for `p` change no translation
of `q`, if their directories differ, and leave the kernel's half closed. -/
theorem map_pages_confined (hb : Boot image k₀ k) (hp : Loaded image k₀.pmm) (hl : image.Linked)
    {k₁ : Kernel} (hrun : Run (EventStep image) k es k₁) (hproc : UserProcess k₁ p)
    (hother : UserProcess k₁ q) (hne : (k₁.procs p).pageDirectory ≠ (k₁.procs q).pageDirectory)
    (huser : UserPages virt pages) (h : procMapPages k₁ p virt phys pages w = some (k', ok)) :
    MapConfined k₁ k' p q := by
  have hi := SpacesOwn.run hb hp hl hrun
  obtain ⟨D, s', hD, hdir, rfl, hown, hmaps⟩ := hi.mapPages hproc huser h
  obtain ⟨D', hD', hdir'⟩ := hi.placed q hother
  have hlow := hD.1
  have hlow' := hD'.1
  constructor
  · intro va hva
    have hapart : D' ≠ D := by
      rintro rfl
      exact hne (hdir.trans hdir'.symm)
    dsimp only
    rw [hdir', kv2p_kp2v_frame (by omega)]
    exact hi.own.walk_other hi.linked hD hmaps (fun _ hidx => hidx) hD' hapart hva
  · intro va h₀ hva
    dsimp only
    rw [hdir, kv2p_kp2v_frame (by omega)]
    exact (hown.kernelHalf D hD).userAccessible h₀ hva id

/-! ## A page above 3 GiB -/

/-- One page is mapped where its table is there or can be had. -/
theorem OwnTables.mapPage (ho : OwnTables image s Ds Opened) (hl : image.Linked) (hD : Ds D) {va : Nat}
    (hva : va < 4294967296) (htable :
      (PageDirEntry.decode (s.mem.word D (pageDirIdx va))).present = true ∨
      ∃ base fm, Mm.allocPages s.framemap pmmFlagsDefault 1 = some (base, fm) ∧ base ≠ 0) :
    ∃ s', procMapPage (kp2v (4096 * D)) va phys w s = some (s', true) := by
  have hd := ho.directory D hD
  cases hpage : procMapPage (kp2v (4096 * D)) va phys w s with
  | none =>
    obtain ⟨habsent, hnone⟩ := procMapPage_none hd.pointer hpage
    rcases htable with hpresent | ⟨base, fm, halloc, -⟩
    · rw [hpresent] at habsent
      cases habsent
    · rw [hnone] at halloc
      cases halloc
  | some result =>
    obtain ⟨s', ok⟩ := result
    have hmaps : MapsInto image D (fun _ => Opened D) (fun _ => True) s s := ho.mapsInto hl hD
    have hturn := procMapPage_turn hd.pointer hmaps.own hva trivial hpage
    cases hturn with
    | noTable habsent _ _ _ hfail _ =>
      rcases htable with hpresent | ⟨base, fm, halloc, hne⟩
      · rw [hpresent] at habsent
        cases habsent
      · rw [hfail] at halloc
        exact absurd (congrArg Prod.fst (Option.some.inj halloc)).symm hne
    | newTable => exact ⟨s', rfl⟩
    | hasTable => exact ⟨s', rfl⟩

/-- The call for one page is the turn for it. -/
theorem procMapPages_one {va : Nat} (hne : p ≠ 0) (hdir : (k.procs p).pageDirectory ≠ 0)
    (hva : va < 4294967296) (h : procMapPage (k.procs p).pageDirectory va (pageVirt phys 0) w k.pmm =
      some (s', true)) : procMapPages k p va phys 1 w = some ({ k with pmm := s' }, true) := by
  have hfirst : pageVirt va 0 = va := by
    simp only [pageVirt, wadd, wmul, pageSize]
    omega
  unfold procMapPages
  rw [if_neg (not_or.2 ⟨hne, not_or.2 ⟨hdir, by decide⟩⟩), procMapLoop, ← pageVirt, ← pageVirt, hfirst, h]
  rfl

/-- A call for one page, when a frame is left, which may be taken for its table. -/
theorem OwnTables.maps_page (ho : OwnTables image k.pmm Ds Opened) (hl : image.Linked) (hD : Ds D)
    (hlow : D < lowFrames) (hp : p ≠ 0) (hdir : (k.procs p).pageDirectory = kp2v (4096 * D)) {base va : Nat}
    {fm : FrameMap} (halloc : Mm.allocPages k.pmm.framemap pmmFlagsDefault 1 = some (base, fm))
    (hbase : base ≠ 0) (hva : va < 4294967296) (phys : Nat) (w : Bool) :
    ∃ s', procMapPage (kp2v (4096 * D)) va (pageVirt phys 0) w k.pmm = some (s', true) ∧
      procMapPages k p va phys 1 w = some ({ k with pmm := s' }, true) ∧ s'.failed = k.pmm.failed ∧
      (s'.framemap = k.pmm.framemap ∨ s'.framemap = fm) := by
  have hnull : (k.procs p).pageDirectory ≠ 0 := by
    rw [hdir]
    exact kp2v_low_ne_zero hlow
  obtain ⟨s', hpage⟩ : ∃ s', procMapPage (kp2v (4096 * D)) va (pageVirt phys 0) w k.pmm = some (s', true) :=
    ho.mapPage hl hD hva (Or.inr ⟨base, fm, halloc, hbase⟩)
  refine ⟨s', hpage, procMapPages_one hp hnull hva (by rw [hdir]; exact hpage), ?_⟩
  have hturn := (ho.directory D hD).pageTurn hva hpage
  cases hturn with
  | newTable _ _ _ _ _ halloc' hfailed =>
    rw [halloc] at halloc'
    exact ⟨hfailed, Or.inr (Prod.mk.inj (Option.some.inj halloc')).2.symm⟩
  | hasTable _ _ _ _ _ _ _ hframes hfailed => exact ⟨hfailed, Or.inl hframes⟩

theorem SpacesOwn.maps_page (hi : SpacesOwn image Opened k) (hp : UserProcess k p) {base va : Nat}
    {fm : FrameMap} (halloc : Mm.allocPages k.pmm.framemap pmmFlagsDefault 1 = some (base, fm))
    (hbase : base ≠ 0) (hva : va < 4294967296) (phys : Nat) (w : Bool) :
    ∃ k', procMapPages k p va phys 1 w = some (k', true) ∧ k'.pmm.failed = k.pmm.failed ∧
      (k'.pmm.framemap = k.pmm.framemap ∨ k'.pmm.framemap = fm) := by
  obtain ⟨D, hD, hdir⟩ := hi.placed p hp
  have hlow := hD.1
  obtain ⟨s', -, hcall, hdone⟩ := hi.own.maps_page hi.linked hD (by omega) hp.1 hdir halloc hbase hva phys w
  exact ⟨_, hcall, hdone⟩

/-- One page at 3 GiB is mapped for user mode, in any directory of a process. -/
theorem SpacesOwn.opens (hi : SpacesOwn image Opened k) (hp : UserProcess k p) (hphys : phys % 4096 = 0)
    (hphys' : phys < 4294967296) : ∃ k', procMapPages k p 0xC0000000 phys 1 true = some (k', true) ∧
      userAccessible k'.pmm.mem (kv2p (k'.procs p).pageDirectory) 0xC0000000 = true := by
  obtain ⟨D, hD, hdir⟩ := hi.placed p hp
  have hlow := hD.1
  have hd := hi.own.directory D hD
  have hnull : (k.procs p).pageDirectory ≠ 0 := by
    rw [hdir]
    exact kp2v_low_ne_zero (by omega)
  have hpa : pageVirt phys 0 = phys := by
    simp only [pageVirt, wadd, wmul, pageSize]
    omega
  obtain ⟨s', hpage⟩ : ∃ s', procMapPage (kp2v (4096 * D)) 0xC0000000 phys true k.pmm =
      some (s', true) := hi.own.mapPage hi.linked hD (by decide)
    (Or.inl ((hi.own.kernelHalf D hD).present 768 (by decide) (by decide)))
  obtain ⟨T, new, hT⟩ := (hd.pageTurn (by decide) hpage).table
  have hmapped := hT.target rfl rfl (by decide) hphys' hphys
  refine ⟨_, procMapPages_one hp.1 hnull (by decide) (by rw [hdir, hpa]; exact hpage), ?_⟩
  dsimp only
  rw [hdir, hd.pointer]
  exact hmapped.user

theorem pagedKernel_loaded : Loaded sampleImage pagedKernel.pmm := by
  refine ⟨⟨fun _ => 0, fun f _ => .refl _ f, ?_⟩, pagedKernel_paged.reserved⟩
  dsimp only [pagedKernel]

theorem sampleCall_userPages :
    UserPages (stackBottomAl sampleCall.stackSize) (stackPages sampleCall.stackSize) := by
  unfold UserPages
  decide

/-- Two processes, each with one page of stack, and a frame left for a table. -/
theorem two_processes : ∃ k k₂, Boot sampleImage pagedKernel k ∧
    Run (EventStep sampleImage) k
      [.create sampleCall 0xC04000A0, .create sampleCall 0xC0402150] k₂ ∧
    UserProcess k₂ 0xC04000A0 ∧ UserProcess k₂ 0xC0402150 ∧
    (k₂.procs 0xC04000A0).pageDirectory ≠ (k₂.procs 0xC0402150).pageDirectory ∧
    ∃ fm, Mm.allocPages k₂.pmm.framemap pmmFlagsDefault 1 = some (0x806000, fm) := by
  obtain ⟨k, k₁, k₂, h⟩ := two_made
  refine ⟨k, k₂, h.boot, .cons ⟨sampleCall_userPages, h.first⟩ (.single ⟨sampleCall_userPages, h.second⟩),
    ⟨by decide, 1, by decide, by decide, ?_⟩, ⟨by decide, 2, by decide, by decide, ?_⟩,
    h.directories, h.frame⟩
  · rw [h.list, Function.update_of_ne (by decide)]
    exact Function.update_self _ _ _
  · rw [h.list]
    exact Function.update_self _ _ _

theorem map_pages_confined_two : ∃ k k₂ k', Boot sampleImage pagedKernel k ∧
    (∃ es, Run (EventStep sampleImage) k es k₂) ∧
    procMapPages k₂ 0xC04000A0 0x400000 0x40000000 1 true = some (k', true) ∧
    MapConfined k₂ k' 0xC04000A0 0xC0402150 := by
  obtain ⟨k, k₂, hboot, hrun, hp, hq, hne, fm, hframe⟩ := two_processes
  have hi := SpacesOwn.run hboot pagedKernel_loaded sampleImage_linked hrun
  obtain ⟨k', hcall, -⟩ := hi.maps_page hp hframe (by decide) (show 0x400000 < 4294967296 by decide)
    0x40000000 true
  have huser : UserPages 0x400000 1 := by
    unfold UserPages
    decide
  exact ⟨k, k₂, k', hboot, ⟨_, hrun⟩, hcall, map_pages_confined hboot pagedKernel_loaded
    sampleImage_linked hrun hp hq hne huser hcall⟩

/-- A page at 3 GiB opens the kernel's half. -/
theorem map_pages_not_confined : ∃ k k₂ k', Boot sampleImage pagedKernel k ∧
    (∃ es, Run (EventStep sampleImage) k es k₂) ∧ UserProcess k₂ 0xC04000A0 ∧
    UserProcess k₂ 0xC0402150 ∧
    (k₂.procs 0xC04000A0).pageDirectory ≠ (k₂.procs 0xC0402150).pageDirectory ∧
    procMapPages k₂ 0xC04000A0 0xC0000000 0x40000000 1 true = some (k', true) ∧
    ¬ MapConfined k₂ k' 0xC04000A0 0xC0402150 := by
  obtain ⟨k, k₂, hboot, hrun, hp, hq, hne, -⟩ := two_processes
  have hi := SpacesOwn.run hboot pagedKernel_loaded sampleImage_linked hrun
  obtain ⟨k', hcall, hopen⟩ := hi.opens hp (show 0x40000000 % 4096 = 0 by decide) (by decide)
  refine ⟨k, k₂, k', hboot, ⟨_, hrun⟩, hp, hq, hne, hcall, fun hconfined => ?_⟩
  rw [hconfined.kernelHalf 0xC0000000 (Nat.le_refl _) (by decide)] at hopen
  cases hopen

end Confined

end BrownieOS.Process
