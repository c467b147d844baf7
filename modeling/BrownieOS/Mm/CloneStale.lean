import BrownieOS.Mm.CloneTwin
import BrownieOS.Mm.FrameLedger
import BrownieOS.Mm.IdentityWindow

/-!
# Is a clone an exact copy?

The table of a clone is not cleared, and its pages are written only where the source has a
frame. So a clone is exact, whatever its new frames held, if every user table of the source is
full, and only then.
-/
namespace BrownieOS.Mm

open BrownieOS.Lib BrownieOS.Lib.Word32

/-- What is found in the copy is what is found in the source, flags and bytes. -/
inductive SamePage (m m' : Mem) :
    Option (PageDirEntry × Page) → Option (PageDirEntry × Page) → Prop
  | unmapped : SamePage m m' none none
  | mapped {found copy : PageDirEntry × Page} :
      copy.1.present = found.1.present → copy.1.rw = found.1.rw → copy.1.user = found.1.user →
      copy.2.present = found.2.present → copy.2.rw = found.2.rw → copy.2.user = found.2.user →
      (∀ x < 4096, m' (framePaddr copy.2.frame + x) = m (framePaddr found.2.frame + x)) →
      SamePage m m' (some found) (some copy)

/-- A frame of the directory in frame `K`: its own two, a user table or a user page. -/
inductive SourceFrame (m : Mem) (K : Nat) : Nat → Prop
  | entries : SourceFrame m K K
  | pointers : SourceFrame m K (K + 1)
  | table {i : Nat} : i < 768 → (entryOf m K i).present = true →
      SourceFrame m K (entryOf m K i).frame.toNat
  | page {i j : Nat} : i < 768 → (entryOf m K i).present = true → j < 1024 →
      (pageOf m K i j).present = true → SourceFrame m K (pageOf m K i j).frame.toNat

/-- A frame that was allocated between `s` and `t`, none of those of the source. -/
structure NewFrame (s t : Pmm) (K f : Nat) : Prop where
  free : s.framemap.test f = false
  used : t.framemap.test f = true
  apart : ¬ SourceFrame s.mem K f

/-- The directory in frame `D` is an exact copy, made from `s` on, of the one in frame `K`. -/
structure ExactCopy (K D : Nat) (s t : Pmm) : Prop where
  pages : ∀ va < 0xC0000000, SamePage s.mem t.mem (walk s.mem (4096 * K) va) (walk t.mem (4096 * D) va)
  tables : ∀ i < 768, (entryOf t.mem D i).present = true →
    NewFrame s t K (entryOf t.mem D i).frame.toNat
  frames : ∀ va < 0xC0000000, ∀ found, walk t.mem (4096 * D) va = some found →
    NewFrame s t K found.2.frame.toNat
  kernelHalf : ∀ i, 768 ≤ i → i < 1024 → t.mem.word D i = s.mem.word K i ∧
    t.mem.word (D + 1) i = s.mem.word (K + 1) i
  source : ∀ f, SourceFrame s.mem K f → s.mem.SameFrame t.mem f

/-- Whatever the free frames hold, a clone that goes through is an exact copy. -/
def ClonesExactly (image : KernelImage) (K D src dest : Nat) (s : Pmm) : Prop :=
  ∀ s₂ t, Twin s s s₂ → clonePageDir image.dir (4096 * K) src dest s₂ = some t →
    t.failed = false → ExactCopy K D s₂ t

/-- Every page of every user table has a frame. -/
def FullTables (m : Mem) (K : Nat) : Prop :=
  ∀ i < 768, (entryOf m K i).present = true → ∀ j < 1024, (pageOf m K i j).frame ≠ 0

section Exact

variable {image : KernelImage} {m : Mem} {s s₂ t : Pmm} {K D F T f i j src dest va : Nat} {p : Page}

theorem UserEntryCopied.entry (hT : T < lowFrames)
    (hword : t.mem.word D i = clonedWord (s.mem.word K i) T) :
    entryOf t.mem D i =
      { entryOf s.mem K i with frame := BitVec.ofNat 20 T, accessed := false } ∧
      ∀ j, pageOf t.mem D i j = .decode (t.mem.word T j) := by
  have hentry : entryOf t.mem D i =
      { entryOf s.mem K i with frame := BitVec.ofNat 20 T, accessed := false } := by
    rw [entryOf, hword]
    exact PageDirEntry.decode_encode _
  refine ⟨hentry, fun j => ?_⟩
  have hframe : (BitVec.ofNat 20 T).toNat = T := by
    simp only [lowFrames] at hT
    rw [BitVec.toNat_ofNat]
    omega
  rw [pageOf, hentry]
  dsimp only
  rw [hframe]

/-- A source frame is settled, if all tables are full. -/
theorem CloneSite.settled (hs : CloneSite image K D s) (hfull : FullTables s.mem K)
    (hf : SourceFrame s.mem K f) : Settled image (fun f => f = D ∨ f = D + 1) s f := by
  have hframe : ∀ i < 768, (entryOf s.mem K i).present = true → (entryOf s.mem K i).frame ≠ 0 := by
    intro i hi hp hz
    rw [hs.half.absent i hi hz] at hp
    cases hp
  cases hf with
  | entries => exact hs.half.entries
  | pointers => exact hs.half.pointers
  | table hi hp => exact hs.half.tables _ hi (hframe _ hi hp)
  | page hi hp hj _ => exact hs.half.pages _ hi (hframe _ hi hp) _ hj (hfull _ hi hp _ hj)

theorem CloneSite.newFrame (hs : CloneSite image K D s) (hfull : FullTables s.mem K)
    (hfree : s.framemap.test f = false) (hused : t.framemap.test f = true) : NewFrame s t K f := by
  refine ⟨hfree, hused, fun hf => ?_⟩
  rw [(hs.settled hfull hf).used] at hfree
  cases hfree

/-- One table of the copy, if all tables are full. -/
theorem CloneSite.newTable (hs : CloneSite image K D s) (hc : CopiedUpTo image K D 1024 s t)
    (hfull : FullTables s.mem K) (hi : i < 768) (hp : (entryOf t.mem D i).present = true) :
    NewFrame s t K (entryOf t.mem D i).frame.toNat := by
  cases hc.userHalf i (by omega) hi with
  | empty hz hzero =>
    rw [entryOf, hzero] at hp
    cases hp
  | @table T hne hT hfresh hused hword _ hpages =>
    obtain ⟨hentry, -⟩ := UserEntryCopied.entry hT hword
    have hframe : (BitVec.ofNat 20 T).toNat = T := by
      simp only [lowFrames] at hT
      rw [BitVec.toNat_ofNat]
      omega
    rw [hentry]
    dsimp only
    rw [hframe]
    exact hs.newFrame hfull hfresh hused

/-- One page of the copy, if all tables are full. -/
theorem CloneSite.samePage (hs : CloneSite image K D s) (hc : CopiedUpTo image K D 1024 s t)
    (hfull : FullTables s.mem K) (hi : i < 768) (hj : j < 1024) :
    SamePage s.mem t.mem (foundAt s.mem K i j) (foundAt t.mem D i j) ∧
      ∀ found, foundAt t.mem D i j = some found → NewFrame s t K found.2.frame.toNat := by
  unfold foundAt
  cases hc.userHalf i (by omega) hi with
  | empty hz hzero =>
    have habsent : (entryOf t.mem D i).present = false := by
      rw [entryOf, hzero]
      rfl
    rw [hs.half.absent i hi hz, habsent, if_neg Bool.false_ne_true, if_neg Bool.false_ne_true]
    exact ⟨.unmapped, fun found hfound => by cases hfound⟩
  | @table T hne hT hfresh hused hword _ hpages =>
    obtain ⟨hentry, hpage⟩ := UserEntryCopied.entry hT hword
    rw [hpage j, hentry]
    dsimp only
    by_cases hp : (entryOf s.mem K i).present = true
    · rw [if_pos hp, if_pos hp]
      cases hpages j hj with
      | skipped hz _ => exact absurd hz (hfull i hi hp j hj)
      | @copied F _ hF hF' _ hinside hcopy hbytes =>
        rw [hcopy, Page.decode_encode, copiedPage]
        dsimp only
        by_cases hq : (pageOf s.mem K i j).present = true
        · rw [if_pos hq, if_pos hq]
          have hframe : (BitVec.ofNat 20 F).toNat = F := by
            rw [BitVec.toNat_ofNat]
            omega
          refine ⟨.mapped rfl rfl rfl rfl rfl rfl fun x hx => ?_, fun found hfound => ?_⟩
          · simp only [framePaddr, hframe, Nat.mul_comm _ 4096]
            exact hbytes x hx
          · cases hfound
            dsimp only
            rw [hframe]
            exact hs.newFrame hfull hF hF'
        · rw [if_neg hq, if_neg hq]
          exact ⟨.unmapped, fun found hfound => by cases hfound⟩
    · rw [if_neg hp, if_neg hp]
      exact ⟨.unmapped, fun found hfound => by cases hfound⟩

/-- With full tables a clone is exact. -/
theorem CloneSite.exact (hs : CloneSite image K D s) (hc : CopiedUpTo image K D 1024 s t)
    (hfull : FullTables s.mem K) : ExactCopy K D s t := by
  have hidx : ∀ va < 0xC0000000, pageDirIdx va < 768 ∧ pageTblIdx va < 1024 := by
    intro va hva
    simp only [pageDirIdx, pageTblIdx]
    omega
  constructor
  · intro va hva
    rw [walk_eq_foundAt, walk_eq_foundAt]
    exact (hs.samePage hc hfull (hidx va hva).1 (hidx va hva).2).1
  · exact fun i hi hp => hs.newTable hc hfull hi hp
  · intro va hva
    rw [walk_eq_foundAt]
    exact (hs.samePage hc hfull (hidx va hva).1 (hidx va hva).2).2
  · exact fun i h₀ h₁ => hc.kernelHalf i h₁ h₀
  · exact fun f hf => hc.keeps.agrees f (hs.settled hfull hf)

/-! ## Stale frames -/

/-- Every free frame is filled with the byte `c`. -/
def fillFree (framemap : FrameMap) (c : Byte) (m : Mem) : Mem :=
  fun x => if framemap.test (x / 4096) then m x else c

theorem word_fillFree {framemap : FrameMap} {c : Byte} (hf : framemap.test f = false) (hj : j < 1024) :
    (fillFree framemap c m).word f j = 16843009 * c.toNat := by
  have hbyte : ∀ x, x / 4096 = f → fillFree framemap c m x = c := by
    intro x hx
    rw [fillFree, hx, hf, if_neg Bool.false_ne_true]
  rw [Mem.word, Mem.get32, hbyte _ (by omega), hbyte _ (by omega), hbyte _ (by omega),
    hbyte _ (by omega)]
  omega

theorem twin_fillFree (s : Pmm) (c : Byte) :
    Twin s s { s with mem := fillFree s.framemap c s.mem } := by
  refine ⟨rfl, rfl, fun f hf x hx => ?_⟩
  dsimp only
  rw [fillFree, hx, hf, if_pos rfl]

theorem CloneSite.twin (hs : CloneSite image K D s) (h : Twin s s s₂) : CloneSite image K D s₂ := by
  have hkeeps : Keeps image (fun f => f = D ∨ f = D + 1) s s₂ :=
    ⟨fun f hf => by rw [h.framemap]; exact hf, fun f hf _ _ => h.mem f hf⟩
  have hsettled : ∀ f, Settled image (fun f => f = D ∨ f = D + 1) s f →
      Settled image (fun f => f = D ∨ f = D + 1) s₂ f :=
    fun f hf => ⟨hkeeps.used f hf.used, hf.notTable, hf.apart⟩
  have ha := hkeeps.agrees
  have hentry : ∀ i < 768, entryOf s₂.mem K i = entryOf s.mem K i :=
    fun i hi => ha.entry hs.half (by omega)
  refine ⟨hs.dest.keeps hkeeps, hs.apart, ⟨hsettled _ hs.half.entries, hsettled _ hs.half.pointers,
    fun i hi => ?_, fun i hi => ?_, fun i hi => ?_, fun i hi => ?_, fun i hi hframe j hj => ?_⟩,
    fun i hi => ?_⟩
  · rw [hentry i hi]
    exact hs.half.absent i hi
  · rw [hentry i hi]
    exact hs.half.low i hi
  · rw [hentry i hi, (h.mem _ hs.half.pointers.used).word (by omega)]
    exact hs.half.mirrored i hi
  · rw [hentry i hi]
    exact fun hframe => hsettled _ (hs.half.tables i hi hframe)
  · rw [hentry i hi] at hframe
    rw [ha.page hs.half hi hframe hj]
    exact fun hpage => hsettled _ (hs.half.pages i hi hframe j hj hpage)
  · rw [(h.mem D hs.dest.used).word hi]
    exact hs.zero i hi

/-- Full tables are in use, so they are full in a twin. -/
theorem CloneSite.fullTables (hs : CloneSite image K D s) (h : Twin s s s₂)
    (hfull : FullTables s.mem K) : FullTables s₂.mem K := by
  have ha : Agrees image (fun f => f = D ∨ f = D + 1) s s₂.mem := h.agrees fun f _ => .refl _ f
  intro i hi hp j hj
  rw [ha.entry hs.half (by omega)] at hp
  have hframe : (entryOf s.mem K i).frame ≠ 0 := by
    intro hz
    rw [hs.half.absent i hi hz] at hp
    cases hp
  rw [ha.page hs.half hi hframe hj]
  exact hfull i hi hp j hj

/-- What a clone leaves of a page without a frame is what the new table held. -/
theorem CloneSite.shows_stale (hs : CloneSite image K D s) (hsrc : kv2p src = 4096 * K)
    (hdest : kv2p dest = 4096 * D) (hi : i < 768) (hp : (entryOf s.mem K i).present = true)
    (hj : j < 1024) (hz : (pageOf s.mem K i j).frame = 0)
    (hrun : ∃ t, clonePageDir image.dir (4096 * K) src dest s = some t ∧ t.failed = false) :
    ¬ ClonesExactly image K D src dest s := by
  intro hexact
  obtain ⟨t, hclone, hok⟩ := hrun
  have hframe : (entryOf s.mem K i).frame ≠ 0 := by
    intro hzero
    rw [hs.half.absent i hi hzero] at hp
    cases hp
  -- the free frames hold pages where the source has none, or none where it has one
  obtain ⟨c, hc⟩ : ∃ c : Byte,
      (Page.decode (16843009 * c.toNat)).present = !(pageOf s.mem K i j).present := by
    cases (pageOf s.mem K i j).present with
    | false => exact ⟨255, by decide⟩
    | true => exact ⟨0, by decide⟩
  have htwin := twin_fillFree s c
  obtain ⟨t₂, hclone₂, hend⟩ := hs.followedClone htwin hsrc hdest hclone hok
  have hok₂ := hend.failed.trans hok
  have hs₂ := hs.twin htwin
  have ha : Agrees image (fun f => f = D ∨ f = D + 1) s (fillFree s.framemap c s.mem) :=
    htwin.agrees fun f _ => .refl _ f
  have hsame := (hexact _ t₂ htwin hclone₂ hok₂).pages (pageIdxVaddr i j 0)
    (by rw [pageIdxVaddr_eq (by omega) hj (by decide)]; omega)
  obtain ⟨hdi, hti, -⟩ := pageIdxVaddr_idx (o := 0) (show i < 1024 by omega) hj (by decide)
  rw [walk_eq_foundAt, walk_eq_foundAt, hdi, hti, foundAt, foundAt, ha.entry hs.half (by omega),
    ha.page hs.half hi hframe hj, if_pos hp] at hsame
  cases (hs₂.copied hsrc hdest hclone₂ hok₂).userHalf i (by omega) hi with
  | empty hzero _ =>
    rw [ha.entry hs.half (by omega)] at hzero
    exact hframe hzero
  | @table T _ hT hfresh _ hword _ hpages =>
    obtain ⟨hentry, hpage⟩ := UserEntryCopied.entry hT hword
    cases hpages j hj with
    | copied hne _ _ _ _ _ _ =>
      rw [ha.page hs.half hi hframe hj] at hne
      exact hne hz
    | skipped _ hstale =>
      have hp₂ : (entryOf t₂.mem D i).present = true := by
        rw [hentry, ha.entry hs.half (by omega)]
        exact hp
      rw [if_pos hp₂, hpage j, hstale, word_fillFree hfresh hj, hc] at hsame
      cases hq : (pageOf s.mem K i j).present with
      | false =>
        rw [hq] at hsame
        cases hsame
      | true =>
        rw [hq] at hsame
        cases hsame

end Exact

/-! ## A directory with one page -/

/-- The first 4 MiB are in use, the 8 frames behind them, and 8 frames from 896 MiB on. -/
def onePageFrames : FrameMap := fun cell => if cell < 129 ∨ cell = 28672 then 0xFF#8 else 0#8

/-- The kernel's directory, and a copy of its two frames in 1024 and 1025. -/
def twoDirectories : Mem :=
  let m := setupKernelDirectory sampleImage fun _ => 0
  fun x => if x / 4096 = 1024 ∨ x / 4096 = 1025 then m (x - 4096 * 512) else m x

/-- The directory in frame 1024 maps address 0 to frame 229376, through the table in frame
1026. The frames 1027 and 1028 are zero, for a directory to be made. -/
def onePage : Pmm where
  mem := (((twoDirectories.zeroFrames 1026 3).setWord 1024 0
    (PageDirEntry.encode ⟨true, true, true, false, false, false, false, false, 0, 1026⟩)).setWord 1025 0
    (kp2v (4096 * 1026))).setWord 1026 0 (Page.encode ⟨true, true, true, false, false, 0, 229376⟩)
  framemap := onePageFrames
  failed := false

theorem onePage_test (f : Nat) :
    onePage.framemap.test f = decide (f / 8 < 129 ∨ f / 8 = 28672) :=
  test_full (fun cell => cell < 129 ∨ cell = 28672) f

theorem twoDirectories_word {f i : Nat} (hi : i < 1024) : twoDirectories.word f i =
    (setupKernelDirectory sampleImage fun _ => 0).word
      (if f = 1024 ∨ f = 1025 then f - 512 else f) i := by
  have hbyte : ∀ k < 4, twoDirectories (4096 * f + 4 * i + k) =
      setupKernelDirectory sampleImage (fun _ => 0)
        (4096 * (if f = 1024 ∨ f = 1025 then f - 512 else f) + 4 * i + k) := by
    intro k hk
    unfold twoDirectories
    split
    · rw [if_pos (by omega)]
      exact congrArg _ (by omega)
    · rw [if_neg (by omega)]
  have h0 := hbyte 0 (by decide)
  rw [Nat.add_zero, Nat.add_zero] at h0
  unfold Mem.word Mem.get32
  rw [h0, hbyte 1 (by decide), hbyte 2 (by decide), hbyte 3 (by decide)]

theorem onePage_word {f i : Nat} (hi : i < 1024) : onePage.mem.word f i =
    if f = 1026 ∧ i = 0 then Page.encode ⟨true, true, true, false, false, 0, 229376⟩
    else if f = 1025 ∧ i = 0 then kp2v (4096 * 1026)
    else if f = 1024 ∧ i = 0 then
      PageDirEntry.encode ⟨true, true, true, false, false, false, false, false, 0, 1026⟩
    else if 1026 ≤ f ∧ f < 1029 then 0 else twoDirectories.word f i := by
  unfold onePage
  dsimp only
  rw [Mem.word_setWord _ (by decide) hi (Page.encode_lt _), Mem.word_setWord _ (by decide) hi (kp2v_lt _),
    Mem.word_setWord _ (by decide) hi (PageDirEntry.encode_lt _)]
  by_cases hf : 1026 ≤ f ∧ f < 1029
  · rw [if_pos hf, Mem.word_zeroFrames _ hi hf.1 (by omega)]
  · rw [if_neg hf, (Mem.sameFrame_zeroFrames _ (by omega)).word hi]

theorem onePage_dirFrame : sampleImage.dirFrame = 512 := by decide

theorem onePage_sameFrame {f : Nat} (hf : f < 1024) :
    (setupKernelDirectory sampleImage fun _ => 0).SameFrame onePage.mem f := by
  intro x hx
  unfold onePage
  dsimp only
  rw [Mem.sameFrame_setWord _ _ (by decide) (by omega) x hx,
    Mem.sameFrame_setWord _ _ (by decide) (by omega) x hx,
    Mem.sameFrame_setWord _ _ (by decide) (by omega) x hx,
    Mem.sameFrame_zeroFrames _ (by omega) x hx]
  unfold twoDirectories
  rw [if_neg (by omega)]

theorem onePage_entry {i : Nat} (hi : i < 768) : onePage.mem.word 1024 i = if i = 0 then
    PageDirEntry.encode ⟨true, true, true, false, false, false, false, false, 0, 1026⟩ else 0 := by
  have hkept := (setupKernelDirectory_kept sampleImage fun _ => 0).1 i hi
  rw [onePage_word (by omega)]
  by_cases hz : i = 0
  · simp [hz]
  · rw [if_neg (by omega), if_neg (by omega), if_neg (by omega), if_neg (by omega), if_neg hz,
      twoDirectories_word (by omega)]
    exact hkept

theorem onePage_page {i j : Nat} (hi : i < 768) (hframe : (entryOf onePage.mem 1024 i).frame ≠ 0)
    (hj : j < 1024) : i = 0 ∧ pageOf onePage.mem 1024 i j =
      if j = 0 then ⟨true, true, true, false, false, 0, 229376⟩ else .decode 0 := by
  have hz : i = 0 := by
    by_contra hne
    apply hframe
    rw [entryOf, onePage_entry hi, if_neg hne]
    rfl
  subst hz
  have hentry : (entryOf onePage.mem 1024 0).frame.toNat = 1026 := by
    rw [entryOf, onePage_entry hi, if_pos rfl, PageDirEntry.decode_encode]
    rfl
  refine ⟨rfl, ?_⟩
  rw [pageOf, hentry, onePage_word hj]
  by_cases hj0 : j = 0
  · rw [if_pos ⟨rfl, hj0⟩, if_pos hj0, Page.decode_encode]
  · rw [if_neg (by omega), if_neg (by omega), if_neg (by omega), if_pos (by decide), if_neg hj0]

theorem onePage_active : ActiveDirectory sampleImage 1024 onePage := by
  have hsetup := (setupKernelDirectory_spec sampleImage fun _ => 0).1
  refine ⟨fun f hf => ?_, hsetup.of_sameFrame (onePage_sameFrame (by decide))
    (onePage_sameFrame (by decide)), ?_, fun hK => absurd hK.low (by decide), fun i h₀ h₁ => ?_⟩
  · rw [onePage_test]
    exact decide_eq_true (by omega)
  · rw [onePage_test]
    decide
  · rw [onePage_dirFrame]
    rw [onePage_word h₁, onePage_word h₁, if_neg (by omega), if_neg (by omega), if_neg (by omega),
      if_neg (by omega), if_neg (by omega), if_neg (by omega), if_neg (by omega), if_neg (by omega),
      twoDirectories_word h₁, twoDirectories_word h₁]
    rfl

theorem onePage_settled {f : Nat} (hlow : 1024 ≤ f) (hused : onePage.framemap.test f = true)
    (hne : f ≠ 1027 ∧ f ≠ 1028) :
    Settled sampleImage (fun f => f = 1027 ∨ f = 1027 + 1) onePage f :=
  ⟨hused, fun hK => absurd hK.low (by omega), by omega⟩

theorem onePage_site : CloneSite sampleImage 1024 1027 onePage := by
  have hused : ∀ f, f < 1032 → onePage.framemap.test f = true := by
    intro f hf
    rw [onePage_test]
    exact decide_eq_true (by omega)
  have hentry : ∀ i < 768, (entryOf onePage.mem 1024 i).frame ≠ 0 →
      i = 0 ∧ (entryOf onePage.mem 1024 i).frame.toNat = 1026 := by
    intro i hi hframe
    obtain rfl := (onePage_page hi hframe (j := 0) (by decide)).1
    refine ⟨rfl, ?_⟩
    rw [entryOf, onePage_entry hi, if_pos rfl, PageDirEntry.decode_encode]
    rfl
  refine ⟨⟨onePage_active, by decide, hused _ (by decide), hused _ (by decide), by decide, by decide⟩,
    ⟨by decide, by decide, by decide⟩,
    ⟨onePage_settled (by decide) (hused _ (by decide)) (by decide),
      onePage_settled (by decide) (hused _ (by decide)) (by decide), fun i hi hz => ?_,
      fun i hi hframe => ?_, fun i hi hframe => ?_, fun i hi hframe => ?_,
      fun i hi hframe j hj hpage => ?_⟩, fun i hi => ?_⟩
  · by_contra hp
    have hp' : (entryOf onePage.mem 1024 i).present = true := by simpa using hp
    by_cases h0 : i = 0
    · rw [h0, entryOf, onePage_entry (by decide), if_pos rfl, PageDirEntry.decode_encode] at hz
      exact absurd hz (by decide)
    · rw [entryOf, onePage_entry hi, if_neg h0] at hp'
      cases hp'
  · rw [(hentry i hi hframe).2]
    decide
  · obtain ⟨rfl, hT⟩ := hentry i hi hframe
    rw [hT]
    exact (onePage_word (by decide)).trans rfl
  · rw [(hentry i hi hframe).2]
    exact onePage_settled (by decide) (hused _ (by decide)) (by decide)
  · obtain ⟨-, hp⟩ := onePage_page hi hframe hj
    rw [hp] at hpage ⊢
    by_cases h0 : j = 0
    · rw [if_pos h0]
      refine onePage_settled (by decide) ?_ (by decide)
      rw [onePage_test]
      decide
    · rw [if_neg h0] at hpage
      exact absurd rfl hpage
  · exact (onePage_word hi).trans (by
      rw [if_neg (by omega), if_neg (by omega), if_neg (by omega), if_pos (by decide)])

/-- While the first slot is free, a highmem frame can be mapped. -/
theorem kmap_first_slot {image : KernelImage} {m : Mem} {paddr : Nat} (hk : KernelDirectory m image)
    (hz : m.word (image.tableFrame 992) 0 = 0) (hp : kernIdentityPhysEnd ≤ paddr) :
    (kmap image.dir m paddr).2 ≠ 0 := by
  have hpage : findFreePage m (getTable m image.dir 992) 0 (1023 + 1) = some 0 := by
    rw [findFreePage, hk.pointers 992 (by decide) (by decide),
      image.kv2p_table 992 (by decide) (by decide)]
    exact if_pos hz
  have hslot : findFreeSlot m image.dir kernHighmemStartTbl (31 + 1) = some (992, 0) := by
    rw [findFreeSlot, hpage]
  rw [kmap_slot hk hslot hp, pageIdxVaddr_eq (by decide) (by decide) (Nat.mod_lt _ (by decide))]
  dsimp only
  omega

/-- The page loop of the one table. -/
theorem onePage_table {framemap framemap' : FrameMap}
    (halloc : Mm.allocPages onePage.framemap pmmFlagsDefault 1 = some (4096 * 1032, framemap))
    (halloc' : Mm.allocPages framemap pmmFlagsHighmem 1 = some (4096 * 229384, framemap')) :
    ∃ t, cloneTable sampleImage.dir (4096 * 1024) 0xC0400000 0xC0403000 0 onePage = some t ∧
      t.failed = false := by
  have hs := onePage_site
  have hsrc : kv2p 0xC0400000 = 4096 * 1024 := by decide
  have hdest : kv2p 0xC0403000 = 4096 * 1027 := by decide
  have hframe : (entryOf onePage.mem 1024 0).frame ≠ 0 := by
    rw [entryOf, onePage_entry (by decide), if_pos rfl, PageDirEntry.decode_encode]
    decide
  have hp : (entryOf onePage.mem 1024 0).present = true := by
    rw [entryOf, onePage_entry (by decide), if_pos rfl, PageDirEntry.decode_encode]
  rw [cloneTable_eq hsrc (by decide) hframe halloc, clonePagesFrom_eq]
  obtain ⟨T, hT, hlow, hfresh, hplaced⟩ := EntryPlaced.of_alloc (i := 0)
    (hs.dest.active.reserved 0 (by decide)) hsrc hdest hs.apart (by decide) halloc (by decide)
    (onePage.failed || 4096 * 1032 == 0)
  generalize hu₀ : Pmm.mk (cloneEntry 0xC0400000 0xC0403000 0 (4096 * 1032) onePage.mem) framemap
    (onePage.failed || 4096 * 1032 == 0) = u₀ at hplaced
  have hsite := hplaced.site hs.dest (by decide) hfresh hlow
  have hkeeps : Keeps sampleImage (fun f => f = 1027 ∨ f = 1027 + 1) onePage u₀ :=
    hplaced.keeps (by decide)
  have hTfresh : ∀ f, onePage.framemap.test f = true → f ≠ T := by
    intro f hf he
    rw [he, hfresh] at hf
    cases hf
  have hfailed : u₀.failed = false := by
    rw [← hu₀]
    rfl
  have hslot : (kmap sampleImage.dir u₀.mem (4096 * 229384)).2 ≠ 0 := by
    apply kmap_first_slot hsite.active.directory ?_ (by decide)
    have hkept := (setupKernelDirectory_kept sampleImage fun _ => 0).2 992 (by decide) (by decide) 0
      (by decide)
    have hat : sampleImage.tableFrame 992 = 992 := by decide
    rw [hplaced.mem, Mem.word_setWord_of_ne _ _ (by decide) (by decide) (Or.inl (by rw [hat]; decide)),
      Mem.word_setWord_of_ne _ _ (by decide) (by decide) (Or.inl (by rw [hat]; decide)),
      (onePage_sameFrame (by rw [hat]; decide)).word (by decide)]
    exact hkept
  have hend := turns_returns (clonePage sampleImage.dir (4096 * 1024) 0xC0400000 0xC0403000 0)
    (i := 0) (n := 1024) (s := u₀)
    (Q := fun j u => Keeps sampleImage (· = T) u₀ u ∧ u.failed = false ∧ (j = 0 → u = u₀))
    ?_ ⟨.refl _ _ _, hfailed, fun _ => rfl⟩
  · obtain ⟨t, hrun, -, hok, -⟩ := hend
    exact ⟨t, hrun, hok⟩
  · intro j u _ hj hQ
    obtain ⟨hku, hok, hstart⟩ := hQ
    have hks := hkeeps.trans_fresh hku hTfresh
    have hsiteu := hsite.keeps hku (by decide)
    obtain ⟨-, hpage⟩ := onePage_page (by decide) hframe (show j < 1024 by omega)
    suffices hturn : ∃ u', clonePage sampleImage.dir (4096 * 1024) 0xC0400000 0xC0403000 0 j u =
        some u' ∧ u'.failed = false by
      obtain ⟨u', hturn, hok'⟩ := hturn
      exact ⟨u', hturn, hku.trans (hsiteu.page hdest (by decide) (by omega) hturn hok'), hok',
        fun he => absurd he (Nat.succ_ne_zero _)⟩
    by_cases hz : j = 0
    · obtain rfl := hstart hz
      rw [if_pos hz] at hpage
      have hreads : ∀ x < 4096, ∃ p,
          readPaddr onePage.mem (4096 * 1024) (wadd (pageIdxVaddr 0 j 0) x) = some p := by
        intro x hx
        rw [readPaddr_user _ _ (by decide) (by omega) hx, hp, hpage, if_pos ⟨rfl, rfl⟩]
        exact ⟨_, rfl⟩
      obtain ⟨u', hturn, -, hok'⟩ := hsiteu.returns 0xC0403000 hs.half hks.agrees hks.used hsrc
        (by decide) hframe
        (by omega) (by rw [hpage]; decide) hreads (by rw [← hu₀]; exact halloc') hslot
      refine ⟨u', hturn, hok'.trans ?_⟩
      rw [hok, beq_eq_false_iff_ne.2 hslot]
      rfl
    · rw [if_neg hz] at hpage
      refine ⟨u, ?_, hok⟩
      unfold clonePage
      rw [hks.agrees.source hs.half hsrc (by decide) hframe (by omega), hpage]
      rfl

theorem onePage_clones : ∃ t,
    clonePageDir sampleImage.dir (4096 * 1024) 0xC0400000 0xC0403000 onePage = some t ∧
      t.failed = false := by
  have hs := onePage_site
  have hsrc : kv2p 0xC0400000 = 4096 * 1024 := by decide
  have hdest : kv2p 0xC0403000 = 4096 * 1027 := by decide
  have heval : (Mm.allocPages onePage.framemap pmmFlagsDefault 1).bind (fun r =>
      (Mm.allocPages r.2 pmmFlagsHighmem 1).map fun r' => (r.1, r'.1)) =
      some (4096 * 1032, 4096 * 229384) := by
    decide +kernel
  obtain ⟨⟨paddr, framemap⟩, halloc, hrest⟩ := Option.bind_eq_some_iff.1 heval
  obtain ⟨⟨paddr', framemap'⟩, halloc', heq⟩ := Option.map_eq_some_iff.1 hrest
  obtain ⟨rfl, rfl⟩ := Prod.mk.inj heq
  unfold clonePageDir
  rw [cloneTablesFrom_eq]
  have hend := turns_returns (cloneTable sampleImage.dir (4096 * 1024) 0xC0400000 0xC0403000)
    (i := 0) (n := 1024) (s := onePage)
    (Q := fun l u => CopiedUpTo sampleImage 1024 1027 l onePage u ∧ u.failed = false ∧
      (l = 0 → u = onePage)) ?_ ⟨hs.start, rfl, fun _ => rfl⟩
  · obtain ⟨t, hrun, -, hok, -⟩ := hend
    exact ⟨t, hrun, hok⟩
  · intro l u _ hl hQ
    obtain ⟨hcopied, hok, hstart⟩ := hQ
    suffices hturn : ∃ u', cloneTable sampleImage.dir (4096 * 1024) 0xC0400000 0xC0403000 l u =
        some u' ∧ u'.failed = false by
      obtain ⟨u', hturn, hok'⟩ := hturn
      exact ⟨u', hturn, hs.turn hcopied hsrc hdest (by omega) hturn hok', hok',
        fun he => absurd he (Nat.succ_ne_zero _)⟩
    by_cases hkern : 768 ≤ l
    · unfold cloneTable
      rw [if_pos hkern]
      exact ⟨_, rfl, hok⟩
    by_cases hz : l = 0
    · rw [hz, hstart hz]
      exact onePage_table halloc halloc'
    · refine ⟨u, ?_, hok⟩
      have hword : u.mem.word 1024 l = 0 := by
        rw [(hcopied.keeps.agrees 1024 hs.half.entries).word (by omega), onePage_entry (by omega),
          if_neg hz]
      unfold cloneTable
      rw [if_neg (by simp only [kernStartTbl]; omega), getDirEntry_eq hsrc, hword]
      rfl

/-! ## The copy is exact when the tables are full -/

/-- A clone is an exact copy whatever the free frames hold, exactly if all tables are full. -/
theorem clone_page_dir_exact_iff {image : KernelImage} {s : Pmm} {K D src dest : Nat}
    (hs : CloneSite image K D s) (hsrc : kv2p src = 4096 * K) (hdest : kv2p dest = 4096 * D)
    (hrun : ∃ t, clonePageDir image.dir (4096 * K) src dest s = some t ∧ t.failed = false) :
    ClonesExactly image K D src dest s ↔ FullTables s.mem K := by
  constructor
  · intro hexact i hi hp j hj hz
    exact hs.shows_stale hsrc hdest hi hp hj hz hrun hexact
  · intro hfull s₂ t htwin hclone hok
    have hs₂ := hs.twin htwin
    exact hs₂.exact (hs₂.copied hsrc hdest hclone hok) (hs.fullTables htwin hfull)

theorem clone_page_dir_exact_iff_one_page :
    ClonesExactly sampleImage 1024 1027 0xC0400000 0xC0403000 onePage ↔ FullTables onePage.mem 1024 :=
  clone_page_dir_exact_iff onePage_site (by decide) (by decide) onePage_clones

/-- The source maps one page, and the clone all those that were left in the frame of its table. -/
theorem clone_page_dir_not_exact : CloneSite sampleImage 1024 1027 onePage ∧
    (∃ t, clonePageDir sampleImage.dir (4096 * 1024) 0xC0400000 0xC0403000 onePage = some t ∧
      t.failed = false) ∧
    ¬ ClonesExactly sampleImage 1024 1027 0xC0400000 0xC0403000 onePage := by
  have hentry : entryOf onePage.mem 1024 0 =
      ⟨true, true, true, false, false, false, false, false, 0, 1026⟩ := by
    rw [entryOf, onePage_entry (by decide), if_pos rfl, PageDirEntry.decode_encode]
  have hpage := (onePage_page (i := 0) (j := 1) (by decide) (by rw [hentry]; decide) (by decide)).2
  refine ⟨onePage_site, onePage_clones, onePage_site.shows_stale (i := 0) (j := 1) (by decide) (by decide)
    (by decide) ?_ (by decide) ?_ onePage_clones⟩
  · rw [hentry]
  · rw [hpage]
    rfl

end BrownieOS.Mm
