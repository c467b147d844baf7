import BrownieOS.Mm.CloneCopy

/-!
# A clone beside its twin

Two states that differ in free frames only: a clone reads nothing of these, so what it does
from one state it does from the other.
-/
namespace BrownieOS.Mm

open BrownieOS.Lib BrownieOS.Lib.Word32

/-- The states have the same frames in use, and hold the same in those that `s` has in use. -/
structure Twin (s t t₂ : Pmm) : Prop where
  framemap : t₂.framemap = t.framemap
  failed : t₂.failed = t.failed
  mem : ∀ f, s.framemap.test f = true → t.mem.SameFrame t₂.mem f

section Twin

variable {image : KernelImage} {m m' : Mem} {s t t' t₂ : Pmm} {C K D T F i j n l src dest dst cr3 v : Nat}
  {P : Nat → Prop}

/-- The address that `kmap` returns depends on the highmem slots. -/
theorem kmap_congr {m' : Mem} (hk : KernelDirectory m image) (hk' : KernelDirectory m' image)
    (htables : ∀ f, KernelTable image f → m.SameFrame m' f) (paddr : Nat) :
    (kmap image.dir m' paddr).2 = (kmap image.dir m paddr).2 ∧
      ∀ f, m.SameFrame m' f → (kmap image.dir m paddr).1.SameFrame (kmap image.dir m' paddr).1 f := by
  by_cases h0 : paddr = 0
  · rw [kmap, kmap, if_pos h0, if_pos h0]
    exact ⟨rfl, fun f hf => hf⟩
  by_cases hlow : paddr < kernIdentityPhysEnd
  · rw [kmap, kmap, if_neg h0, if_neg h0, if_pos hlow, if_pos hlow]
    exact ⟨rfl, fun f hf => hf⟩
  have hsearch : findFreeSlot m' image.dir kernHighmemStartTbl 32 =
      findFreeSlot m image.dir kernHighmemStartTbl 32 := by
    apply findFreeSlot_congr
    intro l h₁ h₂
    simp only [kernHighmemStartTbl] at h₁ h₂
    have hptr := hk.pointers l (by omega) (by omega)
    rw [hptr, hk'.pointers l (by omega) (by omega)]
    refine ⟨rfl, fun j hj => ?_⟩
    rw [image.kv2p_table l (by omega) (by omega)]
    exact (htables _ ⟨l, by omega, by omega, rfl⟩).word hj
  cases hslot : findFreeSlot m image.dir kernHighmemStartTbl 32 with
  | none =>
    rw [kmap_full hslot (by omega), kmap_full (hsearch.trans hslot) (by omega)]
    exact ⟨rfl, fun f hf => hf⟩
  | some found =>
    obtain ⟨i, j⟩ := found
    rw [kmap_slot hk hslot (by omega), kmap_slot hk' (hsearch.trans hslot) (by omega)]
    exact ⟨rfl, fun f hf => hf.set32 _ _⟩

theorem kunmap_congr (hk : KernelDirectory m image) (hk' : KernelDirectory m' image)
    (h₀ : 0xC0000000 ≤ v) (h₁ : v < 4294967296) {f : Nat} (h : m.SameFrame m' f) :
    (kunmap image.dir m v).SameFrame (kunmap image.dir m' v) f := by
  rw [kunmap_eq hk h₀ h₁, kunmap_eq hk' h₀ h₁]
  exact h.set32 _ _

/-- A copy into a window goes through if all its reads do. -/
theorem memcpy_returns (src : Nat) (hw : WindowTo m cr3 dst F) (hn : n ≤ 4096)
    (hread : ∀ m₁, OnlyFrame m m₁ F → ∀ x < n, ∃ p, readPaddr m₁ cr3 (wadd src x) = some p) :
    ∃ m', memcpy m cr3 dst src n = some m' := by
  induction n with
  | zero => exact ⟨m, rfl⟩
  | succ n ih =>
    obtain ⟨m₁, h₁⟩ := ih (by omega) fun m₁ ho x hx => hread m₁ ho x (by omega)
    have ho := memcpy_frame hw (by omega) h₁
    obtain ⟨p, hp⟩ := hread m₁ ho n (Nat.lt_succ_self n)
    refine ⟨Function.update m₁ (4096 * F + n) (m₁ p), ?_⟩
    rw [memcpy, h₁, Option.bind_some, loadByte, hp, Option.map_some, Option.bind_some,
      storeByte_window hw ho (by omega)]

/-- What a copy into a window has read. -/
theorem memcpy_reads (hw : WindowTo m cr3 dst F) (hn : n ≤ 4096)
    (h : memcpy m cr3 dst src n = some m') : ∀ x < n, ∃ m₁, OnlyFrame m m₁ F ∧
      ∃ p, readPaddr m₁ cr3 (wadd src x) = some p := by
  induction n generalizing m' with
  | zero => exact fun x hx => absurd hx (Nat.not_lt_zero x)
  | succ n ih =>
    obtain ⟨m₁, h₁, h₂⟩ := Option.bind_eq_some_iff.1 h
    obtain ⟨c, hload, -⟩ := Option.bind_eq_some_iff.1 h₂
    intro x hx
    by_cases hlast : x = n
    · obtain ⟨p, hp, -⟩ := Option.map_eq_some_iff.1 hload
      rw [hlast]
      exact ⟨m₁, memcpy_frame hw (by omega) h₁, p, hp⟩
    · exact ih (by omega) h₁ x (by omega)

/-- The copy leaves the kernel's directory. -/
theorem PageCopy.directory {m₀ m₁ : Mem} (hc : PageCopy image C src dest i j F v t t' m₀ m₁)
    (hreserved : ∀ f < 1024, t.framemap.test f = true) (hk : KernelDirectory t.mem image) :
    KernelDirectory m₁ image := by
  obtain ⟨hlow, -, -, -⟩ := image.frames_low (i := 768) (by decide) (by decide)
  have hne : ∀ f < 1024, f ≠ F := by
    intro f hf he
    have hfree := hc.fresh
    rw [← he, hreserved f hf] at hfree
    cases hfree
  have hcopied := memcpy_frame hc.window (Nat.le_refl 4096) hc.copied
  exact (hk.of_tables hc.mapped).of_sameFrame (hcopied _ (hne _ (by omega))) (hcopied _ (hne _ hlow))

theorem Twin.agrees (h : Twin s t t₂) (ha : Agrees image P s t.mem) : Agrees image P s t₂.mem :=
  fun f hf => (ha f hf).trans (h.mem f hf.used)

theorem Twin.active (h : Twin s t t₂) (hreserved : ∀ f < 1024, s.framemap.test f = true)
    (hC : s.framemap.test C = true) (ha : ActiveDirectory image C t) : ActiveDirectory image C t₂ := by
  obtain ⟨hlow, -, -, -⟩ := image.frames_low (i := 768) (by decide) (by decide)
  refine ha.of_sameFrame (fun f hf => ?_) (h.mem C hC) (h.mem _ (hreserved _ (by omega)))
    (h.mem _ (hreserved _ hlow))
  rw [h.framemap]
  exact hf

theorem TableSite.twin (ht : TableSite image C D T i t) (h : Twin s t t₂)
    (hreserved : ∀ f < 1024, s.framemap.test f = true) (hC : s.framemap.test C = true)
    (hD' : s.framemap.test (D + 1) = true) (hi : i < 1024) : TableSite image C D T i t₂ := by
  refine ⟨h.active hreserved hC ht.active, ?_, ht.high, ht.low, ht.apart, ?_, ht.dirApart,
    ht.dirKernel, ?_⟩
  · rw [h.framemap]
    exact ht.used
  · rw [h.framemap]
    exact ht.dirUsed
  · rw [(h.mem _ hD').word hi]
    exact ht.pointer

/-- The body of the page loop, for a page with a frame, once a frame is found. -/
theorem clonePage_eq {kdir paddr : Nat} {framemap : FrameMap}
    (hframe : (getPage t.mem (getTable t.mem src i) j).frame ≠ 0)
    (halloc : Mm.allocPages t.framemap pmmFlagsHighmem 1 = some (paddr, framemap)) :
    clonePage kdir cr3 src dest i j t =
      (memcpy (kmap kdir t.mem paddr).1 cr3 (kmap kdir t.mem paddr).2 (pageIdxVaddr i j 0) 4096).map
        fun m => ⟨copyEntry src dest i j paddr (kunmap kdir m (kmap kdir t.mem paddr).2), framemap,
          t.failed || paddr == 0 || (kmap kdir t.mem paddr).2 == 0⟩ := by
  unfold clonePage
  rw [if_pos hframe, Pmm.allocPages_of_eq_some halloc]
  rw [Option.bind_eq_bind, Option.bind_some]
  dsimp only [Pmm.kmap]
  rw [clonePageMapped_eq]

/-- A page with a frame is copied, if a new frame and a slot are to be had and it can be read. -/
theorem TableSite.returns (dest : Nat) {framemap : FrameMap} (ht : TableSite image K D T i t)
    (hu : UserHalf image K P s) (ha : Agrees image P s t.mem)
    (hused : ∀ f, s.framemap.test f = true → t.framemap.test f = true)
    (hsrc : kv2p src = 4096 * K) (hi : i < 768) (hframe : (entryOf s.mem K i).frame ≠ 0)
    (hj : j < 1024) (hz : (pageOf s.mem K i j).frame ≠ 0)
    (hreads : ∀ x < 4096, ∃ p,
      readPaddr s.mem (4096 * K) (wadd (pageIdxVaddr i j 0) x) = some p)
    (halloc : Mm.allocPages t.framemap pmmFlagsHighmem 1 = some (4096 * F, framemap))
    (hslot : (kmap image.dir t.mem (4096 * F)).2 ≠ 0) :
    ∃ t', clonePage image.dir (4096 * K) src dest i j t = some t' ∧ t'.framemap = framemap ∧
      t'.failed = (t.failed || 4096 * F == 0 || (kmap image.dir t.mem (4096 * F)).2 == 0) := by
  obtain ⟨-, -, hnew, -⟩ := Pmm.allocPages_highmem (ht.active.reserved 0 (by decide))
    (Pmm.allocPages_of_eq_some halloc)
  have hfree := hnew.free F (by omega) (by omega)
  have hin := hnew.inside
  simp only [nFrames] at hin
  obtain ⟨hkept, hwindow, -, -⟩ := ht.active.kmap_window (by omega) hfree hslot
  obtain ⟨m', hcopy⟩ := memcpy_returns (pageIdxVaddr i j 0) hwindow (Nat.le_refl 4096) (by
    intro m' ho x hx
    have hm' : Agrees image P s m' := by
      intro f hf
      refine ((ha f hf).trans (hkept f hf.notTable)).trans (ho f fun he => ?_)
      rw [← he, hused f hf.used] at hfree
      cases hfree
    rw [hm'.reads hu hi hframe hj hx]
    exact hreads x hx)
  rw [clonePage_eq (by rw [ha.source hu hsrc hi hframe hj]; exact hz) halloc, hcopy]
  exact ⟨_, rfl, rfl, rfl⟩

/-- A turn of the page loop is followed from the twin. -/
theorem TableSite.followed (ht : TableSite image K D T i t) (hu : UserHalf image K P s)
    (hk : Keeps image P s t) (htwin : Twin s t t₂)
    (hreserved : ∀ f < 1024, s.framemap.test f = true) (hD' : s.framemap.test (D + 1) = true)
    (hfresh : s.framemap.test T = false)
    (hsrc : kv2p src = 4096 * K) (hdest : kv2p dest = 4096 * D) (hi : i < 768)
    (hframe : (entryOf s.mem K i).frame ≠ 0) (hj : j < 1024)
    (h : clonePage image.dir (4096 * K) src dest i j t = some t') (hok : t'.failed = false) :
    ∃ t₂', clonePage image.dir (4096 * K) src dest i j t₂ = some t₂' ∧ Twin s t' t₂' := by
  have ht₂ := ht.twin htwin hreserved hu.entries.used hD' (by omega)
  have ha := hk.agrees
  have ha₂ := htwin.agrees ha
  have hpage := ha.source hu hsrc hi hframe hj
  have hpage₂ := ha₂.source hu hsrc hi hframe hj
  by_cases hz : (pageOf s.mem K i j).frame = 0
  · unfold clonePage at h ⊢
    rw [hpage, if_neg (not_not.2 hz)] at h
    rw [hpage₂, if_neg (not_not.2 hz)]
    cases h
    exact ⟨t₂, rfl, htwin⟩
  obtain ⟨F, m₁, halloc, hc⟩ := ht.active.clonePage (by rw [hpage]; exact hz) h hok
  have halloc' := (Pmm.allocPages_eq_some halloc).1
  have hrun := h
  rw [clonePage_eq (by rw [hpage]; exact hz) halloc', hc.copied, Option.map_some] at hrun
  have hother : ∀ f, s.framemap.test f = true → f ≠ F := by
    intro f hf he
    have hused := hk.used f hf
    rw [he, hc.fresh] at hused
    cases hused
  obtain ⟨hv, hmapped⟩ := kmap_congr ht.active.directory ht₂.active.directory
    (fun f hf => htwin.mem f (hreserved f hf.low)) (4096 * F)
  have hfailed := congrArg Pmm.failed (Option.some.inj hrun)
  dsimp only at hfailed
  have hnull := hfailed
  rw [hok, Bool.or_eq_false_iff, beq_eq_false_iff_ne] at hnull
  obtain ⟨-, -, hlo, hhi⟩ := ht.active.kmap_window hc.inside hc.fresh hnull.2
  -- what the first run has read, the second one reads
  have hreads : ∀ x < 4096, ∃ p,
      readPaddr s.mem (4096 * K) (wadd (pageIdxVaddr i j 0) x) = some p := by
    intro x hx
    obtain ⟨m', ho, p, hp⟩ := memcpy_reads hc.window (Nat.le_refl 4096) hc.copied x hx
    have hm' : Agrees image P s m' := fun f hf =>
      ((ha f hf).trans (hc.mapped f hf.notTable)).trans (ho f (hother f hf.used))
    exact ⟨p, (hm'.reads hu hi hframe hj hx).symm.trans hp⟩
  have hused₂ : ∀ f, s.framemap.test f = true → t₂.framemap.test f = true := by
    intro f hf
    rw [htwin.framemap]
    exact hk.used f hf
  obtain ⟨t₂', hrun₂, hframemap₂, hfailed₂⟩ := ht₂.returns dest hu ha₂ hused₂ hsrc hi hframe hj
    hz hreads (by rw [htwin.framemap]; exact halloc') (by rw [hv]; exact hnull.2)
  rw [hv, htwin.failed, hfailed] at hfailed₂
  refine ⟨t₂', hrun₂, hframemap₂, hfailed₂, fun f hf => ?_⟩
  obtain ⟨F₂, m₁₂, halloc₂, hc₂⟩ := ht₂.active.clonePage (by rw [hpage₂]; exact hz) hrun₂
    (hfailed₂.trans hok)
  obtain rfl : F₂ = F := by
    have heq := (Pmm.allocPages_eq_some halloc₂).1
    rw [htwin.framemap, halloc'] at heq
    have hbase := congrArg Prod.fst (Option.some.inj heq)
    dsimp only at hbase
    omega
  have hfT : f ≠ T := by
    intro he
    rw [he, hfresh] at hf
    cases hf
  have hcopied := memcpy_frame hc.window (Nat.le_refl 4096) hc.copied f (hother f hf)
  have hcopied₂ := memcpy_frame hc₂.window (Nat.le_refl 4096) hc₂.copied f (hother f hf)
  have hlast := kunmap_congr (hc.directory ht.active.reserved ht.active.directory)
    (hc₂.directory ht₂.active.reserved ht₂.active.directory) hlo hhi
    ((hcopied.symm.trans (hmapped f (htwin.mem f hf))).trans hcopied₂)
  have hstored := ht.stored hdest (by omega) hj hc
  have hstored₂ := ht₂.stored hdest (by omega) hj hc₂
  rw [hstored, hstored₂, hv]
  exact ((Mem.sameFrame_setWord _ _ hj hfT).symm.trans hlast).trans (Mem.sameFrame_setWord _ _ hj hfT)

theorem TableSite.followedPages (ht : TableSite image K D T i t) (hu : UserHalf image K P s)
    (hk : Keeps image P s t) (htwin : Twin s t t₂)
    (hreserved : ∀ f < 1024, s.framemap.test f = true) (hD' : s.framemap.test (D + 1) = true)
    (hfresh : s.framemap.test T = false)
    (hsrc : kv2p src = 4096 * K) (hdest : kv2p dest = 4096 * D) (hi : i < 768)
    (hframe : (entryOf s.mem K i).frame ≠ 0)
    (h : clonePagesFrom image.dir (4096 * K) src dest i 0 1024 t = some t') (hok : t'.failed = false) :
    ∃ t₂', clonePagesFrom image.dir (4096 * K) src dest i 0 1024 t₂ = some t₂' ∧ Twin s t' t₂' := by
  have hT : ∀ f, s.framemap.test f = true → f ≠ T := by
    intro f hf he
    rw [he, hfresh] at hf
    cases hf
  rw [clonePagesFrom_eq] at h
  have hend := turns_follow (clonePage image.dir (4096 * K) src dest i)
    (R := fun _ u u₂ => Keeps image (· = T) t u ∧ Twin s u u₂) clonePage_back h
    (ht.active.reserved 0 (by decide)) hok ?_ ⟨.refl _ _ _, htwin⟩
  · obtain ⟨t₂', hrun, -, hend⟩ := hend
    rw [clonePagesFrom_eq]
    exact ⟨t₂', hrun, hend⟩
  · intro l u u' u₂ _ hl hboth hturn hok'
    have hsite := ht.keeps hboth.1 (by omega)
    obtain ⟨u₂', hrun, htwin'⟩ := hsite.followed hu (hk.trans_fresh hboth.1 hT) hboth.2 hreserved
      hD' hfresh hsrc hdest hi hframe (by omega) hturn hok'
    exact ⟨u₂', hrun, hboth.1.trans (hsite.page hdest (by omega) (by omega) hturn hok'), htwin'⟩

/-- A turn of the table loop is followed from the twin. -/
theorem CloneSite.followed (hs : CloneSite image K D s) (hc : CopiedUpTo image K D i s t)
    (htwin : Twin s t t₂) (hsrc : kv2p src = 4096 * K) (hdest : kv2p dest = 4096 * D) (hi : i < 1024)
    (h : cloneTable image.dir (4096 * K) src dest i t = some t') (hok : t'.failed = false) :
    ∃ t₂', cloneTable image.dir (4096 * K) src dest i t₂ = some t₂' ∧ Twin s t' t₂' := by
  have hK : t₂.mem.word K i = t.mem.word K i := (htwin.mem K hs.half.entries.used).word hi
  have hK' : t₂.mem.word (K + 1) i = t.mem.word (K + 1) i :=
    (htwin.mem _ hs.half.pointers.used).word hi
  by_cases hkern : 768 ≤ i
  · unfold cloneTable at h ⊢
    rw [if_pos hkern] at h ⊢
    cases h
    refine ⟨_, rfl, htwin.framemap, htwin.failed, fun f hf => ?_⟩
    have hrest : ∀ m w, (Mem.setWord m D i w).word (K + 1) i = m.word (K + 1) i :=
      fun m w => Mem.word_setWord_of_ne m w hi hi (Or.inl hs.apart.above)
    simp only [putDirEntry_eq hdest, getDirEntry_eq hsrc, putTable_eq hdest, getTable_eq hsrc, hrest,
      hK, hK']
    exact ((htwin.mem f hf).setWord _ _ _).setWord _ _ _
  by_cases hframe : (PageDirEntry.decode (t.mem.word K i)).frame = 0
  · obtain rfl := cloneTable_empty hsrc (by omega) hframe h
    refine ⟨t₂, ?_, htwin⟩
    unfold cloneTable
    rw [if_neg (by simp only [kernStartTbl]; omega), getDirEntry_eq hsrc, hK, if_neg (not_not.2 hframe)]
  · have hd := hs.dest.keeps hc.keeps
    obtain ⟨T, t₁, hT, hfresh, hplaced, hpages, halloc, hfailed⟩ :=
      hd.userEntry hsrc hdest hs.apart (by omega) hframe h hok
    have hsite := hplaced.site hd hi hfresh hT
    have hTs : s.framemap.test T = false := by
      cases hf : s.framemap.test T with
      | false => rfl
      | true =>
        rw [hc.keeps.used T hf] at hfresh
        cases hfresh
    have hT0 : (4096 * T == 0) = false := by
      have := hsite.high
      rw [beq_eq_false_iff_ne]
      omega
    have hframe₂ : (PageDirEntry.decode (t₂.mem.word K i)).frame ≠ 0 := by
      rw [hK]
      exact hframe
    rw [← htwin.framemap] at halloc
    rw [cloneTable_eq hsrc (by omega) hframe₂ halloc]
    have htwin₁ : Twin s t₁
        ⟨cloneEntry src dest i (4096 * T) t₂.mem, t₁.framemap, t₂.failed || 4096 * T == 0⟩ := by
      refine ⟨rfl, ?_, fun f hf => ?_⟩
      · dsimp only
        rw [hT0, Bool.or_false, htwin.failed, hfailed]
      · dsimp only
        rw [hplaced.mem, cloneEntry_eq hsrc hdest hs.apart hi hT, hK]
        exact ((htwin.mem f hf).setWord _ _ _).setWord _ _ _
    have hKs : (entryOf s.mem K i).frame ≠ 0 := by
      rw [← hc.keeps.agrees.entry hs.half hi]
      exact hframe
    exact hsite.followedPages hs.half (hc.keeps.trans (hplaced.keeps hi)) htwin₁
      hs.dest.active.reserved hs.dest.used' hTs hsrc hdest (by omega) hKs hpages hok

/-- From the twin the clone goes through as well. -/
theorem CloneSite.followedClone (hs : CloneSite image K D s) (htwin : Twin s s t₂)
    (hsrc : kv2p src = 4096 * K) (hdest : kv2p dest = 4096 * D)
    (h : clonePageDir image.dir (4096 * K) src dest s = some t) (hok : t.failed = false) :
    ∃ t₂', clonePageDir image.dir (4096 * K) src dest t₂ = some t₂' ∧ Twin s t t₂' := by
  unfold clonePageDir at h ⊢
  rw [cloneTablesFrom_eq] at h ⊢
  have hend := turns_follow (cloneTable image.dir (4096 * K) src dest)
    (R := fun l u u₂ => CopiedUpTo image K D l s u ∧ Twin s u u₂) cloneTable_back h
    (hs.dest.active.reserved 0 (by decide)) hok ?_ ⟨hs.start, htwin⟩
  · obtain ⟨t₂', hrun, -, hend⟩ := hend
    exact ⟨t₂', hrun, hend⟩
  · intro l u u' u₂ _ hl hboth hturn hok'
    obtain ⟨u₂', hrun, htwin'⟩ := hs.followed hboth.1 hboth.2 hsrc hdest (by omega) hturn hok'
    exact ⟨u₂', hrun, hs.turn hboth.1 hsrc hdest (by omega) hturn hok', htwin'⟩

end Twin

end BrownieOS.Mm
