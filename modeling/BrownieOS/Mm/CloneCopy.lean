import BrownieOS.Mm.CloneFrames

/-!
# What `clone_page_dir` copies

A page that has a frame is copied, with its flags, into a new frame. For a page without one
nothing is written, so the new table keeps there the word that its frame happened to hold.
-/
namespace BrownieOS.Mm

open BrownieOS.Lib BrownieOS.Lib.Word32

/-! ## The user half of a directory -/

/-- Entry `i` of the directory in frame `K`. -/
def entryOf (m : Mem) (K i : Nat) : PageDirEntry := .decode (m.word K i)

/-- Page `j` of the table that entry `i` names. -/
def pageOf (m : Mem) (K i j : Nat) : Page := .decode (m.word (entryOf m K i).frame.toNat j)

/-- What a walk finds there. -/
def foundAt (m : Mem) (K i j : Nat) : Option (PageDirEntry × Page) :=
  if (entryOf m K i).present then
    if (pageOf m K i j).present then some (entryOf m K i, pageOf m K i j) else none
  else none

/-- A frame in use that is none of the frames `P` and none of the kernel's tables. -/
structure Settled (image : KernelImage) (P : Nat → Prop) (s : Pmm) (f : Nat) : Prop where
  used : s.framemap.test f = true
  notTable : ¬ KernelTable image f
  apart : ¬ P f

/-- The directory in frame `K`, whose user half maps what it may: an entry that names a table
names it in both views, and tables and pages lie in settled frames. -/
structure UserHalf (image : KernelImage) (K : Nat) (P : Nat → Prop) (s : Pmm) : Prop where
  entries : Settled image P s K
  pointers : Settled image P s (K + 1)
  absent : ∀ i < 768, (entryOf s.mem K i).frame = 0 → (entryOf s.mem K i).present = false
  low : ∀ i < 768, (entryOf s.mem K i).frame ≠ 0 → (entryOf s.mem K i).frame.toNat < lowFrames
  mirrored : ∀ i < 768, (entryOf s.mem K i).frame ≠ 0 →
    s.mem.word (K + 1) i = kp2v (4096 * (entryOf s.mem K i).frame.toNat)
  tables : ∀ i < 768, (entryOf s.mem K i).frame ≠ 0 →
    Settled image P s (entryOf s.mem K i).frame.toNat
  pages : ∀ i < 768, (entryOf s.mem K i).frame ≠ 0 → ∀ j < 1024, (pageOf s.mem K i j).frame ≠ 0 →
    Settled image P s (pageOf s.mem K i j).frame.toNat

/-- The settled frames of `s` are in `m` as they are in `s`. -/
def Agrees (image : KernelImage) (P : Nat → Prop) (s : Pmm) (m : Mem) : Prop :=
  ∀ f, Settled image P s f → s.mem.SameFrame m f

section UserHalf

variable {image : KernelImage} {m m' : Mem} {s s' t : Pmm} {K f i j x va src : Nat} {P : Nat → Prop}

/-- The walk reads one word of the directory and one of the table that it names. -/
theorem walk_eq_foundAt (m : Mem) (K va : Nat) :
    walk m (4096 * K) va = foundAt m K (pageDirIdx va) (pageTblIdx va) := by
  simp only [walk, foundAt, entryOf, pageOf, Mem.word, framePaddr, Nat.mul_comm]

/-- A read of a user page goes to its frame. -/
theorem readPaddr_user (m : Mem) (K : Nat) (hi : i < 768) (hj : j < 1024) (hx : x < 4096) :
    readPaddr m (4096 * K) (wadd (pageIdxVaddr i j 0) x) =
      if (entryOf m K i).present ∧ (pageOf m K i j).present then
        some (4096 * (pageOf m K i j).frame.toNat + x)
      else none := by
  have hva : wadd (pageIdxVaddr i j 0) x = i * 4194304 + j * 4096 + x := by
    rw [pageIdxVaddr_eq (by omega) hj (by decide)]
    simp only [wadd]
    omega
  have hdi : pageDirIdx (i * 4194304 + j * 4096 + x) = i := by simp only [pageDirIdx]; omega
  have hti : pageTblIdx (i * 4194304 + j * 4096 + x) = j := by simp only [pageTblIdx]; omega
  have hoff : (i * 4194304 + j * 4096 + x) % 4096 = x := by omega
  rw [hva, readPaddr, if_neg (by simp only [InIdentityWindow]; omega), translate, walk_eq_foundAt, hdi,
    hti, hoff, foundAt]
  by_cases hp : (entryOf m K i).present <;> by_cases hq : (pageOf m K i j).present <;>
    simp [hp, hq, framePaddr, Nat.mul_comm]

theorem entryOf_congr (h : m.SameFrame m' K) (hi : i < 1024) : entryOf m' K i = entryOf m K i :=
  congrArg PageDirEntry.decode (h.word hi)

theorem pageOf_congr (h : m.SameFrame m' K) (hT : m.SameFrame m' (entryOf m K i).frame.toNat)
    (hi : i < 1024) (hj : j < 1024) : pageOf m' K i j = pageOf m K i j := by
  unfold pageOf
  rw [entryOf_congr h hi, hT.word hj]

theorem Keeps.agrees (hk : Keeps image P s t) : Agrees image P s t.mem :=
  fun f hf => hk.frames f hf.used hf.apart hf.notTable

theorem Agrees.entry (ha : Agrees image P s m) (hu : UserHalf image K P s) (hi : i < 1024) :
    entryOf m K i = entryOf s.mem K i := entryOf_congr (ha K hu.entries) hi

theorem Agrees.page (ha : Agrees image P s m) (hu : UserHalf image K P s) (hi : i < 768)
    (hframe : (entryOf s.mem K i).frame ≠ 0) (hj : j < 1024) :
    pageOf m K i j = pageOf s.mem K i j :=
  pageOf_congr (ha K hu.entries) (ha _ (hu.tables i hi hframe)) (by omega) hj

/-- The page as the clone reads it, through the pointer to its table. -/
theorem Agrees.source (ha : Agrees image P s m) (hu : UserHalf image K P s)
    (hsrc : kv2p src = 4096 * K) (hi : i < 768) (hframe : (entryOf s.mem K i).frame ≠ 0)
    (hj : j < 1024) : getPage m (getTable m src i) j = pageOf s.mem K i j := by
  have hT : kv2p (getTable m src i) = 4096 * (entryOf s.mem K i).frame.toNat := by
    rw [getTable_eq hsrc, (ha _ hu.pointers).word (by omega), hu.mirrored i hi hframe]
    exact kv2p_kp2v_frame (hu.low i hi hframe)
  rw [getPage_eq hT, (ha _ (hu.tables i hi hframe)).word hj]
  rfl

/-- Reads of a user page go where they went in `s`. -/
theorem Agrees.reads (ha : Agrees image P s m) (hu : UserHalf image K P s) (hi : i < 768)
    (hframe : (entryOf s.mem K i).frame ≠ 0) (hj : j < 1024) (hx : x < 4096) :
    readPaddr m (4096 * K) (wadd (pageIdxVaddr i j 0) x) =
      readPaddr s.mem (4096 * K) (wadd (pageIdxVaddr i j 0) x) := by
  rw [readPaddr_user m K hi hj hx, readPaddr_user s.mem K hi hj hx, ha.entry hu (by omega),
    ha.page hu hi hframe hj]

end UserHalf

/-! ## One page -/

/-- Frames that are still free have not been written. -/
def Spares (s s' : Pmm) : Prop := ∀ f, s'.framemap.test f = false → s.mem.SameFrame s'.mem f

/-- Page `j` of the new table `T`, `s` being the state before the clone: a page with a frame
is copied into a new one, and for a page without one the table has what it happened to hold. -/
inductive PageCopied (s t : Pmm) (p : Page) (T j : Nat) : Prop
  | skipped : p.frame = 0 → t.mem.word T j = s.mem.word T j → PageCopied s t p T j
  | copied {F : Nat} : p.frame ≠ 0 → s.framemap.test F = false → t.framemap.test F = true →
      F ≠ T → F < 0x100000 → t.mem.word T j = (copiedPage p F).encode →
      (∀ x < 4096, t.mem (4096 * F + x) = s.mem (4096 * p.frame.toNat + x)) → PageCopied s t p T j

/-- What a turn of the page loop does for page `p`. -/
inductive PageTurned (s t t' : Pmm) (p : Page) (T j : Nat) : Prop
  | skipped : p.frame = 0 → t' = t → PageTurned s t t' p T j
  | copied {F : Nat} : p.frame ≠ 0 → t.framemap.test F = false → t'.framemap.test F = true →
      F < 0x100000 → t'.mem.word T j = (copiedPage p F).encode →
      (∀ l < 1024, l ≠ j → t'.mem.word T l = t.mem.word T l) →
      (∀ x < 4096, t'.mem (4096 * F + x) = s.mem (4096 * p.frame.toNat + x)) →
      PageTurned s t t' p T j

section Page

variable {image : KernelImage} {m : Mem} {s s' s'' t t' : Pmm} {K D F T i j l src dest : Nat}
  {P : Nat → Prop} {p : Page}

theorem Spares.refl (s : Pmm) : Spares s s := fun f _ => .refl _ f

theorem Spares.trans (hused : ∀ f, s'.framemap.test f = true → s''.framemap.test f = true)
    (h : Spares s s') (h' : Spares s' s'') : Spares s s'' := by
  intro f hf
  have hf' : s'.framemap.test f = false := by
    cases hf' : s'.framemap.test f with
    | false => rfl
    | true =>
      rw [hused f hf'] at hf
      cases hf
  exact (h f hf').trans (h' f hf)

/-- A turn of the page loop, in a state where the source is as it was in `s`. -/
theorem TableSite.turned (ht : TableSite image K D T i t) (hu : UserHalf image K P s)
    (hk : Keeps image P s t) (hsrc : kv2p src = 4096 * K) (hdest : kv2p dest = 4096 * D)
    (hi : i < 768) (hframe : (entryOf s.mem K i).frame ≠ 0) (hj : j < 1024)
    (h : clonePage image.dir (4096 * K) src dest i j t = some t') (hok : t'.failed = false) :
    Spares t t' ∧ PageTurned s t t' (pageOf s.mem K i j) T j := by
  have ha := hk.agrees
  have hpage := ha.source hu hsrc hi hframe hj
  by_cases hz : (pageOf s.mem K i j).frame = 0
  · unfold clonePage at h
    rw [hpage, if_neg (not_not.2 hz)] at h
    cases h
    exact ⟨.refl t, .skipped hz rfl⟩
  · obtain ⟨F, m₁, -, hc⟩ := ht.active.clonePage (by rw [hpage]; exact hz) h hok
    have hother : ∀ f, t.framemap.test f = true → f ≠ F := by
      intro f hf he
      rw [he, hc.fresh] at hf
      cases hf
    have hTF := hother T ht.used
    have hhigh := ht.high
    have hFK : ¬ KernelTable image F := by
      intro hF
      have hfree := hc.fresh
      rw [ht.active.reserved F hF.low] at hfree
      cases hfree
    have hm₀ : Agrees image P s (kmap image.dir t.mem (4096 * F)).1 :=
      fun f hf => (ha f hf).trans (hc.mapped f hf.notTable)
    have hm : Agrees image P s (kunmap image.dir m₁ (kmap image.dir t.mem (4096 * F)).2) :=
      fun f hf => (ha f hf).trans (hc.before (hother f (hk.used f hf.used)) hf.notTable)
    have hstored := ht.stored hdest (by omega) hj hc
    rw [hm.source hu hsrc hi hframe hj] at hstored
    have hsettled := hu.pages i hi hframe j hj hz
    have hFs := hother _ (hk.used _ hsettled.used)
    refine ⟨fun f hf => ?_, .copied hz hc.fresh ?_ hc.inside ?_ ?_ ?_⟩
    · have hfree := hf
      rw [hc.marked, Bool.or_eq_false_iff, decide_eq_false_iff_not] at hfree
      have hfK : ¬ KernelTable image f := by
        intro hK
        rw [ht.active.reserved f hK.low] at hfree
        cases hfree.2
      have hfT : f ≠ T := by
        rintro rfl
        rw [ht.used] at hfree
        cases hfree.2
      rw [hstored]
      exact (hc.before hfree.1 hfK).trans (Mem.sameFrame_setWord _ _ hj hfT)
    · rw [hc.marked, decide_eq_true rfl]
      rfl
    · rw [hstored]
      exact Mem.word_setWord_self _ _ _ (Page.encode_lt _)
    · intro l hl hne
      rw [hstored, Mem.word_setWord_of_ne _ _ hj hl (Or.inr hne)]
      exact (hc.before hTF fun hK => absurd hK.low (by omega)).word hl
    · intro x hx
      obtain ⟨q, hq, hcopied⟩ := memcpy_bytes hc.window (Nat.le_refl _)
        (fun m' ho x hx => by
          have hm' : Agrees image P s m' := fun f hf =>
            (hm₀ f hf).trans (ho f (hother f (hk.used f hf.used)))
          rw [hm'.reads hu hi hframe hj hx, hm₀.reads hu hi hframe hj hx])
        (fun x hx q hq => by
          rw [hm₀.reads hu hi hframe hj hx, readPaddr_user _ _ hi hj hx] at hq
          split at hq
          · cases hq
            omega
          · cases hq) hc.copied x hx
      rw [hm₀.reads hu hi hframe hj hx, readPaddr_user _ _ hi hj hx] at hq
      split at hq
      · cases hq
        have hat : (4096 * F + x) / 4096 = F := by omega
        rw [hstored, Mem.sameFrame_setWord _ _ hj (Ne.symm hTF) _ hat, hc.unmapped F hFK _ hat, hcopied]
        exact hm₀ _ hsettled _ (by omega)
      · cases hq

/-- A page of the copy stays: its frame and its table's word do. -/
theorem PageCopied.keep (h : PageCopied s t p T j) (hreserved : ∀ f < 1024, s.framemap.test f = true)
    (hk : Keeps image P t t')
    (hP : ∀ f, s.framemap.test f = false → t.framemap.test f = true → f ≠ T → ¬ P f)
    (hword : t'.mem.word T j = t.mem.word T j) : PageCopied s t' p T j := by
  cases h with
  | skipped hz hstale => exact .skipped hz (hword.trans hstale)
  | @copied F hne hfresh hused hFT hinside hentry hbytes =>
    have hFK : ¬ KernelTable image F := by
      intro hF
      rw [hreserved F hF.low] at hfresh
      cases hfresh
    have hsame := hk.frames F hused (hP F hfresh hused hFT) hFK
    refine .copied hne hfresh (hk.used F hused) hFT hinside (hword.trans hentry) fun x hx => ?_
    rw [hsame _ (by omega), hbytes x hx]

/-- The pages of the new table up to `n`; what follows is what its frame held. -/
structure TableCopied (s t : Pmm) (K T i n : Nat) : Prop where
  done : ∀ j < n, PageCopied s t (pageOf s.mem K i j) T j
  rest : ∀ j < 1024, n ≤ j → t.mem.word T j = s.mem.word T j

theorem TableCopied.turn (hc : TableCopied s t K T i j)
    (hreserved : ∀ f < 1024, s.framemap.test f = true)
    (hused : ∀ f, s.framemap.test f = true → t.framemap.test f = true)
    (hT : t.framemap.test T = true) (hj : j < 1024) (hk : Keeps image (· = T) t t')
    (ht : PageTurned s t t' (pageOf s.mem K i j) T j) : TableCopied s t' K T i (j + 1) := by
  have hold : (∀ l < 1024, l ≠ j → t'.mem.word T l = t.mem.word T l) →
      ∀ l < j, PageCopied s t' (pageOf s.mem K i l) T l := fun hwords l hl =>
    (hc.done l hl).keep hreserved hk (fun f _ _ hf => hf) (hwords l (by omega) (by omega))
  cases ht with
  | skipped hz he =>
    subst he
    refine ⟨fun l hl => ?_, fun l hl hrest => hc.rest l hl (by omega)⟩
    by_cases hlast : l = j
    · rw [hlast]
      exact .skipped hz (hc.rest j hj (Nat.le_refl j))
    · exact hc.done l (by omega)
  | @copied F hne hfresh hF hinside hentry hwords hbytes =>
    have hFs : s.framemap.test F = false := by
      cases hf : s.framemap.test F with
      | false => rfl
      | true =>
        rw [hused F hf] at hfresh
        cases hfresh
    have hFT : F ≠ T := by
      rintro rfl
      rw [hT] at hfresh
      cases hfresh
    refine ⟨fun l hl => ?_, fun l hl hrest => ?_⟩
    · by_cases hlast : l = j
      · rw [hlast]
        exact .copied hne hFs hF hFT hinside hentry hbytes
      · exact hold hwords l (by omega)
    · rw [hwords l hl (by omega)]
      exact hc.rest l hl (by omega)

/-- The page loop fills the new table. -/
theorem TableSite.copied (ht : TableSite image K D T i t) (hu : UserHalf image K P s)
    (hk : Keeps image P s t) (hreserved : ∀ f < 1024, s.framemap.test f = true)
    (hsrc : kv2p src = 4096 * K) (hdest : kv2p dest = 4096 * D) (hi : i < 768)
    (hframe : (entryOf s.mem K i).frame ≠ 0) (hfresh : s.framemap.test T = false)
    (hwords : ∀ j < 1024, t.mem.word T j = s.mem.word T j)
    (h : clonePagesFrom image.dir (4096 * K) src dest i 0 1024 t = some t') (hok : t'.failed = false) :
    Spares t t' ∧ TableCopied s t' K T i 1024 := by
  have h0 := ht.active.reserved 0 (by decide)
  have hT : ∀ f, s.framemap.test f = true → f ≠ T := by
    intro f hf he
    rw [he, hfresh] at hf
    cases hf
  have hend := clonePagesFrom_rule
    (Q := fun l u => Keeps image (· = T) t u ∧ Spares t u ∧ TableCopied s u K T i l) h0 h hok ?_ ?_
  · exact hend.2
  · rintro l u u' _ hl ⟨hku, hspare, hcopied⟩ hturn hok'
    have hsite := ht.keeps hku (by omega)
    have hpage := hsite.page hdest (by omega) (by omega) hturn hok'
    have hks := hk.trans_fresh hku hT
    obtain ⟨hspare', hturned⟩ := hsite.turned hu hks hsrc hdest hi hframe (by omega) hturn hok'
    exact ⟨hku.trans hpage, hspare.trans hpage.used hspare',
      hcopied.turn hreserved hks.used hsite.used (by omega) hpage hturned⟩
  · exact ⟨.refl _ _ _, .refl t, fun j hj => absurd hj (Nat.not_lt_zero j), fun j hj _ => hwords j hj⟩

end Page

/-! ## The whole directory -/

/-- The loaded directory in frame `K` is to be cloned into the zeroed one in frame `D`. -/
structure CloneSite (image : KernelImage) (K D : Nat) (s : Pmm) : Prop where
  dest : DirSite image K D s
  apart : DirectoriesApart K D
  half : UserHalf image K (fun f => f = D ∨ f = D + 1) s
  zero : ∀ i < 1024, s.mem.word D i = 0

/-- Entry `i` of the copy below 3 GiB: there is none, or it names a new table. -/
inductive UserEntryCopied (s t : Pmm) (K D i : Nat) : Prop
  | empty : (entryOf s.mem K i).frame = 0 → t.mem.word D i = 0 → UserEntryCopied s t K D i
  | table {T : Nat} : (entryOf s.mem K i).frame ≠ 0 → T < lowFrames → s.framemap.test T = false →
      t.framemap.test T = true → t.mem.word D i = clonedWord (s.mem.word K i) T →
      t.mem.word (D + 1) i = kp2v (4096 * T) →
      (∀ j < 1024, PageCopied s t (pageOf s.mem K i j) T j) → UserEntryCopied s t K D i

/-- The first `n` entries are copied, and the others are still zero. -/
structure CopiedUpTo (image : KernelImage) (K D n : Nat) (s t : Pmm) : Prop where
  keeps : Keeps image (fun f => f = D ∨ f = D + 1) s t
  spares : Spares s t
  kernelHalf : ∀ i < n, 768 ≤ i → t.mem.word D i = s.mem.word K i ∧
    t.mem.word (D + 1) i = s.mem.word (K + 1) i
  userHalf : ∀ i < n, i < 768 → UserEntryCopied s t K D i
  rest : ∀ i < 1024, n ≤ i → t.mem.word D i = 0

section Whole

variable {image : KernelImage} {s s₁ t t' : Pmm} {K D T i l src dest kdir cr3 : Nat}
  {P : Nat → Prop} {p : Page}

theorem DirSite.apart_of_free (hd : DirSite image K D t) {f : Nat}
    (hf : t.framemap.test f = false) : f ≠ D ∧ f ≠ D + 1 := by
  constructor
  · intro he
    rw [he, hd.used] at hf
    cases hf
  · intro he
    rw [he, hd.used'] at hf
    cases hf

theorem UserEntryCopied.keep (h : UserEntryCopied s t K D l) (hd : DirSite image K D s)
    (hk : Keeps image (fun f => f = D ∨ f = D + 1) t t')
    (hentry : t'.mem.word D l = t.mem.word D l)
    (hpointer : t'.mem.word (D + 1) l = t.mem.word (D + 1) l) : UserEntryCopied s t' K D l := by
  cases h with
  | empty hz hzero => exact .empty hz (hentry.trans hzero)
  | @table T hne hT hfresh hused hword hptr hpages =>
    have hnew : ∀ f, s.framemap.test f = false → ¬ (f = D ∨ f = D + 1) := by
      intro f hf hD
      obtain ⟨h₁, h₂⟩ := hd.apart_of_free hf
      exact hD.elim h₁ h₂
    have hTK : ¬ KernelTable image T := by
      intro hK
      rw [hd.active.reserved T hK.low] at hfresh
      cases hfresh
    have hsame := hk.frames T hused (hnew T hfresh) hTK
    exact .table hne hT hfresh (hk.used T hused) (hentry.trans hword) (hpointer.trans hptr)
      fun j hj => (hpages j hj).keep hd.active.reserved hk (fun f hf _ _ => hnew f hf) (hsame.word hj)

theorem EntryPlaced.spares (hp : EntryPlaced K D T i t s₁) (hd : DirSite image K D t) (hi : i < 1024) :
    Spares t s₁ := by
  intro f hf
  rw [hp.framemap, Bool.or_eq_false_iff] at hf
  obtain ⟨hne, hne'⟩ := hd.apart_of_free hf.2
  rw [hp.mem]
  exact (Mem.sameFrame_setWord _ _ hi hne').trans (Mem.sameFrame_setWord _ _ hi hne)

theorem cloneTable_kernelEntry_spares (hd : DirSite image K D t) (hdest : kv2p dest = 4096 * D)
    (hkern : 768 ≤ i) (hi : i < 1024) (h : cloneTable kdir cr3 src dest i t = some t') :
    Spares t t' := by
  unfold cloneTable at h
  rw [if_pos hkern] at h
  cases h
  intro f hf
  obtain ⟨hne, hne'⟩ := hd.apart_of_free hf
  simp only [putDirEntry_eq hdest, putTable_eq hdest]
  exact (Mem.sameFrame_setWord _ _ hi hne).trans (Mem.sameFrame_setWord _ _ hi hne')

/-- What a turn does with a user entry. -/
theorem CloneSite.userTurn (hs : CloneSite image K D s) (hc : CopiedUpTo image K D i s t)
    (hsrc : kv2p src = 4096 * K) (hdest : kv2p dest = 4096 * D) (hi : i < 768)
    (h : cloneTable image.dir (4096 * K) src dest i t = some t') (hok : t'.failed = false) :
    Spares t t' ∧ UserEntryCopied s t' K D i := by
  have hd := hs.dest.keeps hc.keeps
  have hK : t.mem.word K i = s.mem.word K i :=
    (hc.keeps.agrees K hs.half.entries).word (by omega)
  by_cases hframe : (PageDirEntry.decode (t.mem.word K i)).frame = 0
  · obtain rfl := cloneTable_empty hsrc hi hframe h
    rw [hK] at hframe
    exact ⟨.refl t, .empty hframe (hc.rest i (by omega) (Nat.le_refl i))⟩
  · obtain ⟨T, t₁, hT, hfresh, hplaced, hpages, -⟩ :=
      hd.userEntry hsrc hdest hs.apart hi hframe h hok
    have hfilled := hplaced.filled hd hdest (by omega) hfresh hT hpages hok
    have hsite := hplaced.site hd (by omega) hfresh hT
    have hspare := hplaced.spares hd (by omega)
    have hTs : s.framemap.test T = false := by
      cases hf : s.framemap.test T with
      | false => rfl
      | true =>
        rw [hc.keeps.used T hf] at hfresh
        cases hfresh
    have hD := hd.apart_of_free hfresh
    have hwords : ∀ j < 1024, t₁.mem.word T j = s.mem.word T j := by
      intro j hj
      rw [hplaced.mem, Mem.word_setWord_of_ne _ _ (by omega) hj (Or.inl hD.1),
        Mem.word_setWord_of_ne _ _ (by omega) hj (Or.inl hD.2)]
      exact (hc.spares T hfresh).word hj
    have hkeep₁ : Keeps image (fun f => f = D ∨ f = D + 1) s t₁ :=
      hc.keeps.trans (hplaced.keeps (by omega))
    rw [hK] at hframe
    obtain ⟨hspare', hcopied⟩ := hsite.copied hs.half hkeep₁ hs.dest.active.reserved hsrc hdest hi
      hframe hTs hwords hpages hok
    have hentry := hfilled.entry
    rw [hK] at hentry
    exact ⟨hspare.trans (clonePagesFrom_grows (hsite.active.reserved 0 (by decide)) hpages).used hspare',
      .table hframe hT hTs hfilled.used hentry hfilled.pointer hcopied.done⟩

theorem CloneSite.turn (hs : CloneSite image K D s) (hc : CopiedUpTo image K D i s t)
    (hsrc : kv2p src = 4096 * K) (hdest : kv2p dest = 4096 * D) (hi : i < 1024)
    (h : cloneTable image.dir (4096 * K) src dest i t = some t') (hok : t'.failed = false) :
    CopiedUpTo image K D (i + 1) s t' := by
  have hd := hs.dest.keeps hc.keeps
  have ht := hd.table hsrc hdest hs.apart hi h hok
  have hK := (hc.keeps.agrees K hs.half.entries).word hi
  have hK' := (hc.keeps.agrees _ hs.half.pointers).word hi
  refine ⟨hc.keeps.trans ht.keeps, hc.spares.trans ht.keeps.used ?_, fun l hl hkern => ?_,
    fun l hl huser => ?_, fun l hl hrest => ?_⟩
  · by_cases hkern : 768 ≤ i
    · exact cloneTable_kernelEntry_spares hd hdest hkern hi h
    · exact (hs.userTurn hc hsrc hdest (by omega) h hok).1
  · by_cases he : l = i
    · subst he
      have hkernel : EntryTurn image K D l t t' :=
        cloneTable_kernelEntry hsrc hdest hs.apart hkern hi h
      cases hkernel.cloned with
      | kernel _ hentry hpointer =>
        rw [hentry, hpointer, hK, hK']
        exact ⟨rfl, rfl⟩
      | empty huser _ _ => omega
      | table huser _ _ _ _ _ _ => omega
    · rw [ht.entries l (by omega) he, ht.pointers l (by omega) he]
      exact hc.kernelHalf l (by omega) hkern
  · by_cases he : l = i
    · rw [he]
      exact (hs.userTurn hc hsrc hdest (by omega) h hok).2
    · exact (hc.userHalf l (by omega) huser).keep hs.dest ht.keeps (ht.entries l (by omega) he)
        (ht.pointers l (by omega) he)
  · rw [ht.entries l hl (by omega)]
    exact hc.rest l hl (by omega)

theorem CloneSite.start (hs : CloneSite image K D s) : CopiedUpTo image K D 0 s s :=
  ⟨.refl _ _ _, .refl s, fun i hi => absurd hi (Nat.not_lt_zero i),
    fun i hi => absurd hi (Nat.not_lt_zero i), fun i hi _ => hs.zero i hi⟩

/-- A clone without a failure copies every entry. -/
theorem CloneSite.copied (hs : CloneSite image K D s) (hsrc : kv2p src = 4096 * K)
    (hdest : kv2p dest = 4096 * D)
    (h : clonePageDir image.dir (4096 * K) src dest s = some t) (hok : t.failed = false) :
    CopiedUpTo image K D 1024 s t := by
  have hend := cloneTablesFrom_rule (Q := fun n u => CopiedUpTo image K D n s u)
    (hs.dest.active.reserved 0 (by decide)) h hok ?_ hs.start
  · exact hend
  · intro l u u' _ hl hc hturn hok'
    exact hs.turn hc hsrc hdest (by omega) hturn hok'

end Whole

end BrownieOS.Mm
