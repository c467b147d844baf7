import BrownieOS.Mm.FrameLedger
import BrownieOS.Process.Confined

/-!
# Every page one owner

A page below 3 GiB lies in a frame that was handed out since boot, in which no directory and
no table lies, and which no other directory maps. Frames that were handed out and are not
mapped yet are held; mapping one takes it out of what is held.
-/
namespace BrownieOS.Process

open BrownieOS.Lib BrownieOS.Lib.Word32 BrownieOS.Mm

/-- `f` is the frame of a page of the directory `D`, below 3 GiB. -/
def PageFrame (m : Mem) (D f : Nat) : Prop :=
  ∃ T, UserTable m D T ∧ ∃ j < 1024, (Page.decode (m.word T j)).present = true ∧
    (Page.decode (m.word T j)).frame.toNat = f

/-- A frame that may be a user page: free at first and in use now, but for no directory of
`Ds` and none of their tables. -/
structure UserFrame (first : FrameMap) (s : Pmm) (Ds : Nat → Prop) (f : Nat) : Prop where
  inside : f < nFrames
  fresh : first.test f = false
  used : s.framemap.test f = true
  directory : ∀ D, Ds D → f ≠ D ∧ f ≠ D + 1
  table : ∀ D, Ds D → ¬ UserTable s.mem D f

/-- Every page of the directories `Ds` has a frame of its own, none of those that are held. -/
structure PagesOwn (image : KernelImage) (first : FrameMap) (s : Pmm) (Ds Held : Nat → Prop) :
    Prop where
  since : ∀ f, first.test f = true → s.framemap.test f = true
  kernel : ∀ i < 768, s.mem.word image.dirFrame i = 0
  held : ∀ f, Held f → UserFrame first s Ds f
  pages : ∀ D, Ds D → ∀ f, PageFrame s.mem D f → UserFrame first s Ds f ∧ ¬ Held f
  unshared : ∀ D D', Ds D → Ds D' → D ≠ D' → ∀ f, PageFrame s.mem D f → ¬ PageFrame s.mem D' f

/-- The frames of the pages of a range that lie below 3 GiB. -/
def LowMapped (virt phys pages f : Nat) : Prop :=
  ∃ l < pages, pageVirt virt l < 0xC0000000 ∧ f = phys / 4096 + l

/-- Those of the pages from 3 GiB up. -/
def HighMapped (virt phys pages f : Nat) : Prop :=
  ∃ l < pages, 0xC0000000 ≤ pageVirt virt l ∧ f = phys / 4096 + l

/-- Through the kernel's tables user mode is let into the frames `Shown` alone. -/
def KernelPages (image : KernelImage) (Shown : Nat → Prop) (m : Mem) : Prop :=
  ∀ i, 768 ≤ i → i < 1024 → ∀ j < 1024, (Page.decode (m.word (image.tableFrame i) j)).present = true →
    (Page.decode (m.word (image.tableFrame i) j)).user = true →
    Shown (Page.decode (m.word (image.tableFrame i) j)).frame.toNat

section PageOwners

variable {image : KernelImage} {first : FrameMap} {s s' t t' : Pmm} {m m' : Mem}
  {Ds Ds' Held Held' Opened : Nat → Prop} {D T f i j va virt phys pages base count : Nat}
  {w ok new : Bool}

theorem PageFrame.of_words (hD : ∀ i < 768, m'.word D i = m.word D i)
    (hT : ∀ T, UserTable m D T → m.SameFrame m' T) (h : PageFrame m' D f) : PageFrame m D f := by
  obtain ⟨T, htable, j, hj, hp, hframe⟩ := h
  have hold := htable.of_words hD
  rw [(hT T hold).word hj] at hp hframe
  exact ⟨T, hold, j, hj, hp, hframe⟩

theorem PageFrame.of_sameFrame (hD : m.SameFrame m' D)
    (hT : ∀ T, UserTable m D T → m.SameFrame m' T) (h : PageFrame m' D f) : PageFrame m D f :=
  h.of_words (fun _ hi => hD.word (by omega)) hT

theorem UserFrame.of_words (h : UserFrame first s Ds f)
    (hused : ∀ f, s.framemap.test f = true → s'.framemap.test f = true)
    (hD : ∀ D, Ds D → ∀ i < 768, s'.mem.word D i = s.mem.word D i) : UserFrame first s' Ds f :=
  ⟨h.inside, h.fresh, hused f h.used, h.directory, fun D hDs hT => h.table D hDs (hT.of_words (hD D hDs))⟩

/-- Where the entries below 3 GiB and their tables stay, so do the pages. -/
theorem PagesOwn.of_words (hp : PagesOwn image first s Ds Held)
    (hused : ∀ f, s.framemap.test f = true → s'.framemap.test f = true)
    (hK : s.mem.SameFrame s'.mem image.dirFrame)
    (hD : ∀ D, Ds D → ∀ i < 768, s'.mem.word D i = s.mem.word D i)
    (hT : ∀ D, Ds D → ∀ T, UserTable s.mem D T → s.mem.SameFrame s'.mem T) :
    PagesOwn image first s' Ds Held where
  since := fun f hf => hused f (hp.since f hf)
  kernel := fun i hi => by
    rw [hK.word (by omega)]
    exact hp.kernel i hi
  held := fun f hf => (hp.held f hf).of_words hused hD
  pages := fun D hDs f hf =>
    have hold := hp.pages D hDs f (hf.of_words (hD D hDs) (hT D hDs))
    ⟨hold.1.of_words hused hD, hold.2⟩
  unshared := fun D D' hDs hDs' hne f hf hf' => hp.unshared D D' hDs hDs' hne f
    (hf.of_words (hD D hDs) (hT D hDs)) (hf'.of_words (hD D' hDs') (hT D' hDs'))

theorem PagesOwn.of_sameFrame (hp : PagesOwn image first s Ds Held)
    (hused : ∀ f, s.framemap.test f = true → s'.framemap.test f = true)
    (hK : s.mem.SameFrame s'.mem image.dirFrame) (hD : ∀ D, Ds D → s.mem.SameFrame s'.mem D)
    (hT : ∀ D, Ds D → ∀ T, UserTable s.mem D T → s.mem.SameFrame s'.mem T) :
    PagesOwn image first s' Ds Held :=
  hp.of_words hused hK (fun D hDs _ hi => (hD D hDs).word (by omega)) hT

theorem PagesOwn.mono (hp : PagesOwn image first s Ds Held) (hD : ∀ D, Ds' D → Ds D)
    (hheld : ∀ f, Held' f → Held f) : PagesOwn image first s Ds' Held' := by
  have hframe : ∀ f, UserFrame first s Ds f → UserFrame first s Ds' f := fun f h =>
    ⟨h.inside, h.fresh, h.used, fun D h' => h.directory D (hD D h'), fun D h' => h.table D (hD D h')⟩
  refine ⟨hp.since, hp.kernel, fun f hf => hframe f (hp.held f (hheld f hf)), fun D hDs f hf => ?_,
    fun D D' hDs hDs' => hp.unshared D D' (hD D hDs) (hD D' hDs')⟩
  obtain ⟨hown, hnot⟩ := hp.pages D (hD D hDs) f hf
  exact ⟨hframe f hown, fun h => hnot (hheld f h)⟩

/-- Frames handed out are held from then on. -/
theorem PagesOwn.alloc (hp : PagesOwn image first s Ds Held) (ho : OwnTables image s Ds Opened)
    (halloc : Allocated s.framemap s'.framemap base count) (hmem : s'.mem = s.mem) :
    PagesOwn image first s' Ds fun f => Held f ∨ (framesOf base count).Mem f := by
  have hused : ∀ f, s.framemap.test f = true → s'.framemap.test f = true := by
    intro f hf
    rw [halloc.marked, Bitmap.test_setRange (by decide), hf]
    exact Bool.or_true _
  have hfree : ∀ f, (framesOf base count).Mem f → s.framemap.test f = false :=
    fun f hf => halloc.free f hf.1 hf.2
  have hne : ∀ f g, (framesOf base count).Mem f → s.framemap.test g = true → f ≠ g := by
    rintro f _ hf hg rfl
    rw [hfree f hf] at hg
    cases hg
  have hsame : ∀ f, s.mem.SameFrame s'.mem f := by
    intro f
    rw [hmem]
    exact .refl _ f
  have hkept := hp.of_sameFrame hused (hsame _) (fun D _ => hsame D) fun _ _ T _ => hsame T
  refine ⟨hkept.since, hkept.kernel, ?_, fun D hD f hf => ?_, hkept.unshared⟩
  · rintro f (hf | hf)
    · exact hkept.held f hf
    · have hin : base / 4096 + count ≤ nFrames := halloc.inside
      refine ⟨?_, ?_, ?_, fun D hD => ?_, fun D hD hT => ?_⟩
      · have hlast : f < base / 4096 + count := hf.2
        omega
      · by_contra hold
        exact hne f f hf (hp.since f (by simpa using hold)) rfl
      · rw [halloc.marked, Bitmap.test_setRange (by decide), Bool.or_eq_true, decide_eq_true_eq]
        exact Or.inl hf
      · exact ⟨hne f D hf (ho.directory D hD).used, hne f _ hf (ho.directory D hD).used'⟩
      · rw [hmem] at hT
        exact hne f f hf (ho.tables D hD f hT).2.1 rfl
  · obtain ⟨hown, hnot⟩ := hkept.pages D hD f hf
    refine ⟨hown, ?_⟩
    rintro (hheld | hnew)
    · exact hnot hheld
    · rw [hmem] at hf
      exact hne f f hnew (hp.pages D hD f hf).1.used rfl

/-! ## A new directory -/

/-- A new directory maps no page, and lies in no frame that is a page or is held. -/
theorem PagesOwn.newDirectory (hp : PagesOwn image first s Ds Held)
    (ho : OwnTables image s Ds Opened) (hn : NewDirectory image D s s') (hne : D ≠ 0) :
    PagesOwn image first s' (fun D' => D' = D ∨ Ds D') Held := by
  obtain ⟨hfree, hfree'⟩ := hn.fresh.resolve_left hne
  have hapart : ∀ f, s.framemap.test f = true → f ≠ D ∧ f ≠ D + 1 := by
    intro f hf
    constructor
    · rintro rfl
      rw [hfree] at hf
      cases hf
    · rintro rfl
      rw [hfree'] at hf
      cases hf
  have hsame : ∀ f, s.framemap.test f = true → s.mem.SameFrame s'.mem f :=
    fun f hf => hn.others f (hapart f hf).1 (hapart f hf).2
  obtain ⟨hlow, -, -, -⟩ := image.frames_low (i := 768) (by decide) (by decide)
  have hkept := hp.of_sameFrame hn.grows (hsame _ (ho.kernel.reserved _ (by omega)))
    (fun D' hD' => hsame D' (ho.directory D' hD').used)
    fun D' hD' T hT => hsame T (ho.tables D' hD' T hT).2.1
  have hnone : ∀ f, ¬ PageFrame s'.mem D f := fun f ⟨_, hT, _⟩ => hn.not_userTable hT
  have hframe : ∀ f, s.framemap.test f = true → UserFrame first s' Ds f →
      UserFrame first s' (fun D' => D' = D ∨ Ds D') f := by
    intro f hf h
    refine ⟨h.inside, h.fresh, h.used, ?_, ?_⟩
    · rintro D' (rfl | hD')
      · exact hapart f hf
      · exact h.directory D' hD'
    · rintro D' (rfl | hD')
      · exact hn.not_userTable
      · exact h.table D' hD'
  have hbefore : ∀ D', Ds D' → ∀ f, PageFrame s'.mem D' f → PageFrame s.mem D' f :=
    fun D' hD' f hf => hf.of_sameFrame (hsame D' (ho.directory D' hD').used)
      fun T hT => hsame T (ho.tables D' hD' T hT).2.1
  refine ⟨hkept.since, hkept.kernel,
    fun f hf => hframe f (hp.held f hf).used (hkept.held f hf), ?_, ?_⟩
  · rintro D' (rfl | hD') f hf
    · exact absurd hf (hnone f)
    · have hused := (hp.pages D' hD' f (hbefore D' hD' f hf)).1.used
      obtain ⟨hown, hnot⟩ := hkept.pages D' hD' f hf
      exact ⟨hframe f hused hown, hnot⟩
  · rintro D₁ D₂ (rfl | h₁) (rfl | h₂) hne f hf hf'
    · exact hne rfl
    · exact hnone f hf
    · exact hnone f hf'
    · exact hkept.unshared D₁ D₂ h₁ h₂ hne f hf hf'

/-! ## Mapping pages -/

/-- The pages of a directory after a turn: the one that was mapped, and those there were. -/
theorem TurnTable.pageFrame {dir : Nat} (h : TurnTable D T i j phys w new s s')
    (hd : ProcessDirectory s dir D) (hi : i < 768)
    (ht : PageTurn D i j phys w (fun f => f ≠ D ∧ f ≠ D + 1) s s' true) (hphys : phys < 4294967296)
    (hf : PageFrame s'.mem D f) : f = phys / 4096 ∨ PageFrame s.mem D f := by
  obtain ⟨T', ⟨l, hl, hp, hframe⟩, j', hj', hpage, rfl⟩ := hf
  by_cases hidx : l = i
  · subst hidx
    obtain ⟨-, -, -, hown⟩ := h.entry
    obtain rfl : T' = T := hframe.symm.trans hown
    by_cases hpos : j' = j
    · left
      rw [hpos, h.set.page, decode_pageWord]
      simp only [pageFrame, BitVec.toNat_ofNat]
      omega
    · right
      rw [h.set.pages j' hj' hpos] at hpage ⊢
      cases hnew : new with
      | true =>
        rw [hnew, if_pos rfl] at hpage
        cases hpage
      | false =>
        rw [hnew, if_neg Bool.false_ne_true] at hpage
        have hpresent := h.present
        rw [hnew] at hpresent
        exact ⟨T', ⟨l, hl, hpresent, h.frame hnew⟩, j', hj', hpage, rfl⟩
  · right
    rw [(ht.entries (by omega) hidx).1] at hp hframe
    obtain ⟨T'', -, ⟨⟨hD, hD'⟩, -⟩, -, hframe'⟩ := hd.mirrored l (by omega) trivial hp
    obtain rfl : T'' = T' := hframe'.symm.trans hframe
    have hother := h.other hd (by omega) (by omega) hidx hp
    rw [hframe] at hother
    rw [(h.set.others T'' hD hD' hother).word hj'] at hpage ⊢
    exact ⟨T'', ⟨l, hl, hp, hframe⟩, j', hj', hpage, rfl⟩

/-- A held frame is mapped below 3 GiB: it is the directory's from then on. -/
theorem PagesOwn.turn (hp : PagesOwn image first t Ds Held) (ho : OwnTables image t Ds Opened)
    (hl : image.Linked) (hD : Ds D) (hva : va < 4294967296) (huser : pageDirIdx va < 768)
    (hphys : phys < 4294967296) (hheld : Held (phys / 4096))
    (hpage : procMapPage (kp2v (4096 * D)) va phys w t = some (t', true)) :
    PagesOwn image first t' Ds fun f => Held f ∧ f ≠ phys / 4096 := by
  have hmaps : MapsInto image D (fun _ => Opened D) (· < 768) t t' :=
    (ho.mapsInto hl hD).turn hva huser hpage
  have hd := ho.directory D hD
  have hturn := hd.pageTurn hva hpage
  obtain ⟨T, new, hT⟩ := hturn.table
  obtain ⟨⟨hK, -⟩, hsame⟩ := ho.others hl hD hmaps
  have hbefore : ∀ D', Ds D' → D' ≠ D → ∀ f, PageFrame t'.mem D' f → PageFrame t.mem D' f := by
    intro D' hD' hne f hf
    refine hf.of_sameFrame (hsame D' hD' hne).1 fun T' hT' => ?_
    obtain ⟨-, hused, hdirs⟩ := ho.tables D' hD' T' hT'
    apply hmaps.sameFrame hused (hdirs D hD).1 (hdirs D hD).2
      (fun hown => ho.unshared D' D hD' hD hne T' hT' hown)
    intro i h₀ _ hlt
    omega
  have htarget : ∀ f, PageFrame t'.mem D f → f = phys / 4096 ∨ PageFrame t.mem D f :=
    fun f hf => hT.pageFrame hd huser hturn hphys hf
  have hframe : ∀ f, UserFrame first t Ds f → UserFrame first t' Ds f := by
    intro f h
    refine ⟨h.inside, h.fresh, hmaps.writes.used f h.used, h.directory, fun D' hD' hT' => ?_⟩
    by_cases hne : D' = D
    · rw [hne] at hT'
      obtain ⟨-, hfree | hold⟩ := hmaps.userTable hT'
      · rw [h.used] at hfree
        cases hfree
      · exact h.table D hD hold
    · exact h.table D' hD' (hT'.of_sameFrame (hsame D' hD' hne).1)
  have hown : ∀ D', Ds D' → D' ≠ D → ∀ f, PageFrame t'.mem D f → ¬ PageFrame t'.mem D' f := by
    intro D' hD' hne f hf hf'
    have hother := hbefore D' hD' hne f hf'
    rcases htarget f hf with rfl | hold
    · exact (hp.pages D' hD' _ hother).2 hheld
    · exact hp.unshared D D' hD hD' hne.symm f hold hother
  refine ⟨fun f hf => hmaps.writes.used f (hp.since f hf), fun i hi => ?_,
    fun f hf => hframe f (hp.held f hf.1), fun D' hD' f hf => ?_, fun D₁ D₂ h₁ h₂ hne f hf hf' => ?_⟩
  · rw [hK.word (by omega)]
    exact hp.kernel i hi
  · by_cases hne : D' = D
    · rw [hne] at hf
      rcases htarget f hf with rfl | hold
      · exact ⟨hframe _ (hp.held _ hheld), fun h => h.2 rfl⟩
      · obtain ⟨hfr, hnot⟩ := hp.pages D hD f hold
        exact ⟨hframe f hfr, fun h => hnot h.1⟩
    · obtain ⟨hfr, hnot⟩ := hp.pages D' hD' f (hbefore D' hD' hne f hf)
      exact ⟨hframe f hfr, fun h => hnot h.1⟩
  · by_cases he₁ : D₁ = D
    · rw [he₁] at hf hne
      exact hown D₂ h₂ hne.symm f hf hf'
    · by_cases he₂ : D₂ = D
      · rw [he₂] at hf'
        exact hown D₁ h₁ he₁ f hf' hf
      · exact hp.unshared D₁ D₂ h₁ h₂ hne f (hbefore D₁ h₁ he₁ f hf) (hbefore D₂ h₂ he₂ f hf')

/-- A page from 3 GiB up lies in a table of the kernel's, and its turn changes that table and the
entry of the directory. -/
theorem OwnTables.turn_high (ho : OwnTables image t Ds Opened) (hD : Ds D) (hva : va < 4294967296)
    (hhigh : 768 ≤ pageDirIdx va)
    (hpage : procMapPage (kp2v (4096 * D)) va phys w t = some (t', true)) :
    TurnTable D (image.tableFrame (pageDirIdx va)) (pageDirIdx va) (pageTblIdx va) phys w false t t' := by
  have hd := ho.directory D hD
  have hk := ho.kernelHalf D hD
  obtain ⟨T, new, hT⟩ := (hd.pageTurn hva hpage).table
  have hpresent := hT.present
  rw [hk.present _ hhigh (pageDirIdx_lt hva)] at hpresent
  obtain rfl : new = false := by simpa using hpresent.symm
  rw [← hk.frame _ hhigh (pageDirIdx_lt hva), hT.frame rfl]
  exact hT

/-- It leaves all pages below 3 GiB. -/
theorem PagesOwn.turn_high (hp : PagesOwn image first t Ds Held) (ho : OwnTables image t Ds Opened)
    (hl : image.Linked) (hD : Ds D) (hva : va < 4294967296) (hhigh : 768 ≤ pageDirIdx va)
    (hpage : procMapPage (kp2v (4096 * D)) va phys w t = some (t', true)) :
    PagesOwn image first t' Ds Held := by
  have hT := ho.turn_high hD hva hhigh hpage
  have hturn := (ho.directory D hD).pageTurn hva hpage
  have hmaps : MapsInto image D (fun _ => Opened D) (· = pageDirIdx va) t t' :=
    (ho.mapsInto hl hD).turn hva rfl hpage
  obtain ⟨⟨hK, -⟩, hsame⟩ := ho.others hl hD hmaps
  obtain ⟨-, hlow, -, -⟩ := image.frames_low hhigh (pageDirIdx_lt hva)
  refine hp.of_words hmaps.writes.used hK (fun D' hD' i hi => ?_) fun D' hD' T hTable => ?_
  · by_cases hne : D' = D
    · rw [hne]
      exact (hturn.entries (by omega) (by omega)).1
    · exact (hsame D' hD' hne).1.word (by omega)
  · obtain ⟨hge, -, hdirs⟩ := ho.tables D' hD' T hTable
    exact hT.set.others T (hdirs D hD).1 (hdirs D hD).2 (by omega)

/-- A turn that finds no table changes nothing but the record of failures. -/
theorem MapsInto.turn_failed {U I : Nat → Prop} (h : MapsInto image D U I s t)
    (hva : va < 4294967296) (hI : I (pageDirIdx va))
    (hpage : procMapPage (kp2v (4096 * D)) va phys w t = some (t', false)) :
    t'.mem = t.mem ∧ t'.framemap = t.framemap ∧ t'.failed = true := by
  have hturn := procMapPage_turn h.directory.pointer h.own hva hI hpage
  cases hturn with
  | noTable _ _ hmem hframes _ hfailed => exact ⟨hmem, hframes, hfailed⟩

theorem LowMapped.mem (h : LowMapped virt phys pages f) : (framesOf phys pages).Mem f := by
  obtain ⟨l, hl, -, rfl⟩ := h
  exact ⟨Nat.le_add_right _ l, Nat.add_lt_add_left hl _⟩

theorem HighMapped.mem (h : HighMapped virt phys pages f) : (framesOf phys pages).Mem f := by
  obtain ⟨l, hl, -, rfl⟩ := h
  exact ⟨Nat.le_add_right _ l, Nat.add_lt_add_left hl _⟩

theorem LowMapped.mono {n : Nat} (h : LowMapped virt phys n f) (hn : n ≤ pages) :
    LowMapped virt phys pages f := by
  obtain ⟨l, hl, hlow, he⟩ := h
  exact ⟨l, Nat.lt_of_lt_of_le hl hn, hlow, he⟩

theorem pageVirt_frame {k : Nat} (h : phys / 4096 + k < nFrames) :
    pageVirt phys k / 4096 = phys / 4096 + k := by
  simp only [nFrames] at h
  rw [pageVirt_eq (by omega)]
  omega

/-- The page `k` of a range that is held lies in frame `phys / 4096 + k`. -/
theorem PagesOwn.page_frame {k : Nat} (hp : PagesOwn image first s Ds Held)
    (hheld : ∀ f, (framesOf phys pages).Mem f → Held f) (hk : k < pages) :
    pageVirt phys k / 4096 = phys / 4096 + k ∧ (framesOf phys pages).Mem (phys / 4096 + k) := by
  have hmem : (framesOf phys pages).Mem (phys / 4096 + k) :=
    ⟨Nat.le_add_right _ k, Nat.add_lt_add_left hk _⟩
  exact ⟨pageVirt_frame (hp.held _ (hheld _ hmem)).inside, hmem⟩

/-- A range that is held is mapped, whatever comes of it: the frames of its pages below 3 GiB are
the directory's from then on. -/
theorem PagesOwn.loop (hp : PagesOwn image first s Ds Held) (ho : OwnTables image s Ds Opened)
    (hl : image.Linked) (hD : Ds D) (hopen : ¬ UserPages virt pages → Opened D)
    (hheld : ∀ f, (framesOf phys pages).Mem f → Held f)
    (h : procMapLoop (kp2v (4096 * D)) virt phys w 0 pages s = some (s', ok)) :
    PagesOwn image first s' Ds fun f => Held f ∧ ¬ LowMapped virt phys pages f := by
  have hrule := procMapLoop_rule
    (Q := fun k t => MapsInto image D (fun _ => Opened D) (PageEntries virt pages) s t ∧
      PagesOwn image first t Ds fun f => Held f ∧ ¬ LowMapped virt phys k f) h ?_ ?_
  · rcases hrule with ⟨-, -, hdone⟩ | ⟨rfl, k, t, -, hk, ⟨hmaps, hsofar⟩, hlast⟩
    · rw [Nat.zero_add] at hdone
      exact hdone
    · -- what is left of the range is given up
      obtain ⟨hmem, hframes, -⟩ := hmaps.turn_failed (pageVirt_lt virt k) ⟨k, by omega, rfl⟩ hlast
      have hsame : ∀ f, t.mem.SameFrame s'.mem f := by
        intro f
        rw [hmem]
        exact .refl _ f
      have hkept := hsofar.of_sameFrame (fun f hf => by rw [hframes]; exact hf) (hsame _)
        (fun D _ => hsame D) fun _ _ T _ => hsame T
      exact hkept.mono (fun _ h => h) fun f hf => ⟨hf.1, fun hin => hf.2 (hin.mono (by omega))⟩
  · rintro k t t' - hk ⟨hmaps, hsofar⟩ hpage
    have hok := ho.mapped hl hD hmaps (PageEntries.opened hopen)
    obtain ⟨hframe, hmem⟩ := hp.page_frame hheld (show k < pages by omega)
    refine ⟨hmaps.turn (pageVirt_lt virt k) ⟨k, by omega, rfl⟩ hpage, ?_⟩
    by_cases huser : pageVirt virt k < 0xC0000000
    · have hidx : pageDirIdx (pageVirt virt k) < 768 := by
        simp only [pageDirIdx]
        omega
      have hnot : ¬ LowMapped virt phys k (pageVirt phys k / 4096) := by
        rintro ⟨l, hlt, -, he⟩
        omega
      have hnext := hsofar.turn hok hl hD (pageVirt_lt virt k) hidx (pageVirt_lt phys k)
        ⟨by rw [hframe]; exact hheld _ hmem, hnot⟩ hpage
      refine hnext.mono (fun _ h => h) fun f hf =>
        ⟨⟨hf.1, fun hin => hf.2 (hin.mono (Nat.le_succ k))⟩, fun he => hf.2 ?_⟩
      exact ⟨k, Nat.lt_succ_self k, huser, he.trans hframe⟩
    · have hidx : 768 ≤ pageDirIdx (pageVirt virt k) := by
        simp only [pageDirIdx]
        omega
      exact (hsofar.turn_high hok hl hD (pageVirt_lt virt k) hidx hpage).mono (fun _ h => h)
        fun f hf => ⟨hf.1, fun hin => hf.2 (hin.mono (Nat.le_succ k))⟩
  · exact ⟨ho.mapsInto hl hD, hp.mono (fun _ h => h) fun f hf => hf.1⟩

/-! ## The kernel's tables -/

theorem KernelPages.of_sameFrame {Shown : Nat → Prop} (h : KernelPages image Shown m)
    (hT : ∀ f, KernelTable image f → m.SameFrame m' f) : KernelPages image Shown m' := by
  intro i h₀ h₁ j hj
  rw [(hT _ ⟨i, h₀, h₁, rfl⟩).word hj]
  exact h i h₀ h₁ j hj

theorem KernelPages.mono {Shown Shown' : Nat → Prop} (h : KernelPages image Shown m)
    (hf : ∀ f, Shown f → Shown' f) : KernelPages image Shown' m :=
  fun i h₀ h₁ j hj hp hu => hf _ (h i h₀ h₁ j hj hp hu)

/-- A slot that lets user mode in nowhere. -/
theorem KernelPages.setSlot {Shown : Nat → Prop} {n : Nat} (h : KernelPages image Shown m) (h₀ : 768 ≤ i)
    (h₁ : i < 1024) (hj : j < 1024) (hn : n < 4294967296) (huser : (Page.decode n).user = false) :
    KernelPages image Shown (m.set32 (image.slot i j) n) := by
  intro i' h₀' h₁' j' hj' hp hu
  rw [KernelImage.slot_eq h₀ h₁, ← Mem.setWord, Mem.word_setWord m hj hj' hn] at hp hu ⊢
  split at hu
  · rw [huser] at hu
    cases hu
  · rename_i hne
    rw [if_neg hne] at hp ⊢
    exact h i' h₀' h₁' j' hj' hp hu

theorem KernelPages.kmap {Shown : Nat → Prop} (h : KernelPages image Shown m) (hk : KernelDirectory m image)
    (paddr : Nat) : KernelPages image Shown (Mm.kmap image.dir m paddr).1 := by
  have hresult := kmap_result hk paddr
  generalize Mm.kmap image.dir m paddr = result at hresult
  cases hresult with
  | null => exact h
  | identity => exact h
  | slot _ h₀ h₁ hj _ => exact h.setSlot (by omega) h₁ hj (mappedWord_lt paddr) (by rw [decode_mappedWord])

theorem KernelPages.kunmap {Shown : Nat → Prop} {v : Nat} (h : KernelPages image Shown m)
    (hk : KernelDirectory m image) (hv : 0xC0000000 ≤ v) (hv' : v < 4294967296) :
    KernelPages image Shown (Mm.kunmap image.dir m v) := by
  rw [kunmap_eq hk hv hv']
  exact h.setSlot (by simp only [pageDirIdx]; omega) (pageDirIdx_lt hv') (pageTblIdx_lt v) (by decide) rfl

/-- A turn shows the frame of its page, if the page lies above 3 GiB. -/
theorem KernelPages.turn {Shown : Nat → Prop} (hk : KernelPages image Shown t.mem)
    (ho : OwnTables image t Ds Opened) (hl : image.Linked) (hD : Ds D) (hva : va < 4294967296)
    (hphys : phys < 4294967296)
    (hpage : procMapPage (kp2v (4096 * D)) va phys w t = some (t', true)) :
    KernelPages image (fun f => Shown f ∨ 0xC0000000 ≤ va ∧ f = phys / 4096) t'.mem := by
  have hmaps : MapsInto image D (fun _ => Opened D) (· = pageDirIdx va) t t' :=
    (ho.mapsInto hl hD).turn hva rfl hpage
  intro i h₀ h₁ j hj
  by_cases hi : i = pageDirIdx va
  · have hT := ho.turn_high hD hva (by omega) hpage
    rw [← hi] at hT
    by_cases hpos : j = pageTblIdx va
    · intro _ _
      right
      rw [hpos, hT.set.page, decode_pageWord]
      simp only [pageFrame, BitVec.toNat_ofNat]
      simp only [pageDirIdx] at hi
      omega
    · rw [hT.set.pages j hj hpos]
      exact fun hp hu => Or.inl (hk i h₀ h₁ j hj hp hu)
  · rw [(ho.kernelTable_kept hl hD hmaps h₀ h₁ hi).word hj]
    exact fun hp hu => Or.inl (hk i h₀ h₁ j hj hp hu)

/-- The loop shows the frames of the pages above 3 GiB. -/
theorem KernelPages.loop {Shown : Nat → Prop} (hk : KernelPages image Shown s.mem)
    (ho : OwnTables image s Ds Opened) (hl : image.Linked) (hD : Ds D)
    (hopen : ¬ UserPages virt pages → Opened D) (hin : phys / 4096 + pages ≤ nFrames)
    (h : procMapLoop (kp2v (4096 * D)) virt phys w 0 pages s = some (s', true)) :
    KernelPages image (fun f => Shown f ∨ HighMapped virt phys pages f) s'.mem := by
  have hrule := procMapLoop_rule
    (Q := fun k t => MapsInto image D (fun _ => Opened D) (PageEntries virt pages) s t ∧
      KernelPages image (fun f => Shown f ∨ HighMapped virt phys k f) t.mem) h ?_ ?_
  · rcases hrule with ⟨-, -, hdone⟩ | ⟨hfail, -⟩
    · rw [Nat.zero_add] at hdone
      exact hdone
    · cases hfail
  · rintro k t t' - hlt ⟨hmaps, hsofar⟩ hpage
    have hok := ho.mapped hl hD hmaps (PageEntries.opened hopen)
    refine ⟨hmaps.turn (pageVirt_lt virt k) ⟨k, by omega, rfl⟩ hpage, ?_⟩
    refine (hsofar.turn hok hl hD (pageVirt_lt virt k) (pageVirt_lt phys k) hpage).mono ?_
    rintro f ((hf | ⟨l, hl', hhigh, he⟩) | ⟨hhigh, he⟩)
    · exact Or.inl hf
    · exact Or.inr ⟨l, by omega, hhigh, he⟩
    · exact Or.inr ⟨k, Nat.lt_succ_self k, hhigh, he.trans (pageVirt_frame (by omega))⟩
  · exact ⟨ho.mapsInto hl hD, hk.mono fun f hf => Or.inl hf⟩

end PageOwners

end BrownieOS.Process
