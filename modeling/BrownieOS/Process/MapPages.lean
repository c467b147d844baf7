import BrownieOS.Mm.Directories
import BrownieOS.Process.Create

/-!
# What `proc_map_pages` does to memory

One page is mapped by writing one table, its entry and its pointer; a table that was not
there is a new frame of zeros. `OwnDirectory` is what makes a directory safe to map into:
its own two frames are no table of it, and neither is free.
-/
namespace BrownieOS.Process

open BrownieOS.Lib BrownieOS.Lib.Word32 BrownieOS.Mm

/-- The word of a directory entry that `proc_map_pages` has filled in for the table `T`. -/
def tableWord (w T : Nat) : Nat :=
  PageDirEntry.encode { PageDirEntry.decode w with
    present := true, rw := true, user := true, frame := BitVec.ofNat 20 T }

/-- The word of a directory entry that was present already. -/
def sharedWord (w : Nat) (writable : Bool) : Nat :=
  PageDirEntry.encode { PageDirEntry.decode w with
    rw := (PageDirEntry.decode w).rw || writable, user := true }

/-- The word of a page entry that maps `phys` for user mode. -/
def pageWord (w phys : Nat) (writable : Bool) : Nat :=
  Page.encode { Page.decode w with
    frame := BitVec.ofNat 20 (pageFrame phys), present := true, rw := writable, user := true }

/-- Page `j` of the table `T`, entry `i` of the directory `D`, is mapped, the table new or not. -/
structure PageSet (D T i j phys : Nat) (writable new : Bool) (m m' : Mem) : Prop where
  entry : m'.word D i = if new then tableWord (m.word D i) T else sharedWord (m.word D i) writable
  pointer : m'.word (D + 1) i = kp2v (4096 * T)
  page : m'.word T j = pageWord (if new then 0 else m.word T j) phys writable
  pages : ∀ j' < 1024, j' ≠ j → m'.word T j' = if new then 0 else m.word T j'
  entries : ∀ i' < 1024, i' ≠ i → m'.word D i' = m.word D i'
  pointers : ∀ i' < 1024, i' ≠ i → m'.word (D + 1) i' = m.word (D + 1) i'
  others : ∀ f, f ≠ D → f ≠ D + 1 → f ≠ T → m.SameFrame m' f

/-- The directory `D`, its tables among the frames `P`. Whatever is free may become one. -/
structure OwnDirectory (s : Pmm) (D : Nat) (I P : Nat → Prop) : Prop where
  frame0 : s.framemap.test 0 = true
  used : s.framemap.test D = true
  used' : s.framemap.test (D + 1) = true
  apart : ¬ P D
  apart' : ¬ P (D + 1)
  free : ∀ f < lowFrames, s.framemap.test f = false → P f
  mirrored : Mirrored s.mem D I fun T => P T ∧ s.framemap.test T = true

/-- The turns of the loop of `proc_map_pages` by what they find. -/
inductive PageTurn (D i j phys : Nat) (writable : Bool) (P : Nat → Prop) (s : Pmm) :
    Pmm → Bool → Prop
  | noTable {s' : Pmm} : (PageDirEntry.decode (s.mem.word D i)).present = false →
      (∀ f < lowFrames, s.framemap.test f = true) → s'.mem = s.mem → s'.framemap = s.framemap →
      Mm.allocPages s.framemap pmmFlagsDefault 1 = some (0, s'.framemap) → s'.failed = true →
      PageTurn D i j phys writable P s s' false
  | newTable {s' : Pmm} {T : Nat} : (PageDirEntry.decode (s.mem.word D i)).present = false →
      T < lowFrames → Allocated s.framemap s'.framemap (4096 * T) 1 → P T →
      PageSet D T i j phys writable true s.mem s'.mem →
      Mm.allocPages s.framemap pmmFlagsDefault 1 = some (4096 * T, s'.framemap) →
      s'.failed = s.failed →
      PageTurn D i j phys writable P s s' true
  | hasTable {s' : Pmm} {T : Nat} : (PageDirEntry.decode (s.mem.word D i)).present = true →
      T < lowFrames → P T → s.framemap.test T = true → s.mem.word (D + 1) i = kp2v (4096 * T) →
      (PageDirEntry.decode (s.mem.word D i)).frame.toNat = T →
      PageSet D T i j phys writable false s.mem s'.mem → s'.framemap = s.framemap →
      s'.failed = s.failed → PageTurn D i j phys writable P s s' true

section Turn

variable {s s' : Pmm} {dir D va phys : Nat} {writable ok : Bool} {I P : Nat → Prop}

theorem pageDirIdx_lt (h : va < 4294967296) : pageDirIdx va < 1024 := by
  simp only [pageDirIdx]
  omega

theorem pageTblIdx_lt (va : Nat) : pageTblIdx va < 1024 := by
  simp only [pageTblIdx]
  omega

theorem kp2v_low_ne_zero {T : Nat} (h : T < lowFrames) : kp2v (4096 * T) ≠ 0 := by
  rw [kp2v_frame_eq h]
  omega

theorem fill_eq_zeroFrames {m : Mem} {table T : Nat} (h : kv2p table = 4096 * T) :
    m.fill (kv2p table) 4096 0 = m.zeroFrames T 1 := by
  rw [h, Mem.zeroFrames]

theorem frameOf_frame (T : Nat) : frameOf (4096 * T) = BitVec.ofNat 20 T := by
  rw [frameOf, pageFrame, Nat.mul_div_cancel_left T (by decide)]

/-- A page of a table that is there. -/
theorem pageSet_shared {m : Mem} {T i j : Nat} (hi : i < 1024) (hj : j < 1024) (hD : T ≠ D)
    (hD' : T ≠ D + 1) (hp : m.word (D + 1) i = kp2v (4096 * T)) :
    PageSet D T i j phys writable false m ((m.setWord D i (sharedWord (m.word D i) writable)).setWord
      T j (pageWord ((m.setWord D i (sharedWord (m.word D i) writable)).word T j) phys writable)) := by
  have he : sharedWord (m.word D i) writable < 4294967296 := PageDirEntry.encode_lt _
  have hw : ∀ w, pageWord w phys writable < 4294967296 := fun w => Page.encode_lt _
  constructor
  · simp [Mem.word_setWord, hi, hj, he, hw, Ne.symm hD]
  · simp [Mem.word_setWord, hi, hj, he, hw, Ne.symm hD', hp]
  · simp [Mem.word_setWord, hi, hj, he, hw, hD]
  · intro j' hj' hne
    simp [Mem.word_setWord, hi, hj, hj', he, hw, hne, hD]
  · intro i' hi' hne
    simp [Mem.word_setWord, hi, hi', hj, he, hw, hne, Ne.symm hD]
  · intro i' hi' hne
    simp [Mem.word_setWord, hi, hi', hj, he, hw, Ne.symm hD']
  · intro f hfD hfD' hfT
    exact (Mem.sameFrame_setWord _ _ hi hfD).trans (Mem.sameFrame_setWord _ _ hj hfT)

/-- A page of a new table. -/
theorem pageSet_new {m : Mem} {T i j : Nat} (phys : Nat) (writable : Bool) (hi : i < 1024)
    (hj : j < 1024) (hD : T ≠ D)
    (hD' : T ≠ D + 1) :
    PageSet D T i j phys writable true m
      ((((m.zeroFrames T 1).setWord (D + 1) i (kp2v (4096 * T))).setWord D i
        (tableWord (m.word D i) T)).setWord T j (pageWord 0 phys writable)) := by
  have he : tableWord (m.word D i) T < 4294967296 := PageDirEntry.encode_lt _
  have hw : pageWord 0 phys writable < 4294967296 := Page.encode_lt _
  have hv := kp2v_lt (4096 * T)
  have hzero : ∀ j' < 1024, (m.zeroFrames T 1).word T j' = 0 := fun j' hj' =>
    Mem.word_zeroFrames m hj' (Nat.le_refl _) (by omega)
  have hkeep : ∀ f, f ≠ T → m.SameFrame (m.zeroFrames T 1) f := fun f hf =>
    Mem.sameFrame_zeroFrames m (by omega)
  have hkeepD : ∀ i' < 1024, (m.zeroFrames T 1).word D i' = m.word D i' :=
    fun i' hi' => (hkeep D (Ne.symm hD)).word hi'
  have hkeepD' : ∀ i' < 1024, (m.zeroFrames T 1).word (D + 1) i' = m.word (D + 1) i' :=
    fun i' hi' => (hkeep (D + 1) (Ne.symm hD')).word hi'
  constructor
  · simp [Mem.word_setWord, hi, hj, he, hw, Ne.symm hD]
  · simp [Mem.word_setWord, hi, hj, he, hw, hv, Ne.symm hD']
  · simp [hw]
  · intro j' hj' hne
    simp [Mem.word_setWord, hi, hj, hj', he, hw, hv, hne, hD, hD', hzero]
  · intro i' hi' hne
    simp [Mem.word_setWord, hi, hi', hj, he, hw, hv, hne, Ne.symm hD, hkeepD]
  · intro i' hi' hne
    simp [Mem.word_setWord, hi, hi', hj, he, hw, hv, hne, Ne.symm hD', hkeepD']
  · intro f hfD hfD' hfT
    exact (hkeep f hfT).trans ((Mem.sameFrame_setWord _ _ hi hfD').trans
      ((Mem.sameFrame_setWord _ _ hi hfD).trans (Mem.sameFrame_setWord _ _ hj hfT)))

theorem newTable_eq {m : Mem} {T i : Nat} (hdir : kv2p dir = 4096 * D) (hT : T < lowFrames)
    (hi : i < 1024) (hD : T ≠ D) :
    newTable dir i (4096 * T) m = ((m.zeroFrames T 1).setWord (D + 1) i (kp2v (4096 * T))).setWord D i
      (tableWord (m.word D i) T) := by
  have hentry : ((m.zeroFrames T 1).setWord (D + 1) i (kp2v (4096 * T))).word D i = m.word D i := by
    rw [Mem.word_setWord_of_ne _ _ hi hi (Or.inl (Nat.ne_of_lt (Nat.lt_succ_self D))),
      (Mem.sameFrame_zeroFrames m (by omega)).word hi]
  unfold newTable
  simp only [fill_eq_zeroFrames (kv2p_kp2v_frame hT), putTable_eq hdir, putDirEntry_eq hdir,
    getDirEntry_eq hdir, hentry, frameOf_frame]
  rfl

/-- A turn that finds its table. -/
theorem procMapPage_shared {T : Nat} (hdir : kv2p dir = 4096 * D) (hva : va < 4294967296)
    (hp : (PageDirEntry.decode (s.mem.word D (pageDirIdx va))).present = true) (hT : T < lowFrames)
    (hPT : P T) (hused : s.framemap.test T = true)
    (hpointer : s.mem.word (D + 1) (pageDirIdx va) = kp2v (4096 * T))
    (hframe : (PageDirEntry.decode (s.mem.word D (pageDirIdx va))).frame.toNat = T) (hD : T ≠ D)
    (hD' : T ≠ D + 1) (h : procMapPage dir va phys writable s = some (s', ok)) :
    PageTurn D (pageDirIdx va) (pageTblIdx va) phys writable P s s' ok := by
  have hi := pageDirIdx_lt hva
  have hj := pageTblIdx_lt va
  unfold procMapPage at h
  simp only [getDirEntry_eq hdir, getTable_eq hdir] at h
  rw [if_neg (by simp [hp]), hpointer, if_neg (kp2v_low_ne_zero hT)] at h
  obtain ⟨rfl, rfl⟩ := Prod.mk.inj (Option.some.inj h)
  refine .hasTable hp hT hPT hused hpointer hframe ?_ rfl rfl
  unfold setPage
  rw [putDirEntry_eq hdir, putPage_eq (kv2p_kp2v_frame hT), getPage_eq (kv2p_kp2v_frame hT)]
  exact pageSet_shared hi hj hD hD' hpointer

theorem procMapPage_turn (hdir : kv2p dir = 4096 * D) (ho : OwnDirectory s D I P)
    (hva : va < 4294967296) (hI : I (pageDirIdx va))
    (h : procMapPage dir va phys writable s = some (s', ok)) :
    PageTurn D (pageDirIdx va) (pageTblIdx va) phys writable P s s' ok := by
  have hi := pageDirIdx_lt hva
  have hj := pageTblIdx_lt va
  cases hp : (PageDirEntry.decode (s.mem.word D (pageDirIdx va))).present with
  | true =>
    obtain ⟨T, hT, ⟨hPT, hused⟩, hpointer, hframe⟩ := ho.mirrored _ hi hI hp
    exact procMapPage_shared hdir hva hp hT hPT hused hpointer hframe (fun he => ho.apart (he ▸ hPT))
      (fun he => ho.apart' (he ▸ hPT)) h
  | false =>
    unfold procMapPage at h
    simp only [getDirEntry_eq hdir, getTable_eq hdir] at h
    rw [if_pos hp] at h
    obtain ⟨⟨s₁, base⟩, halloc, h₁⟩ := Option.bind_eq_some_iff.1 h
    obtain ⟨hmem, ⟨rfl, hframes, hfailed⟩ | ⟨T, rfl, hT0, hlow, hnew, hfailed⟩⟩ :=
      Pmm.allocPages_low ho.frame0 (by decide) halloc
    · obtain ⟨rfl, rfl⟩ := Prod.mk.inj (Option.some.inj h₁)
      exact .noTable hp (Pmm.allocPages_none ho.frame0 halloc) hmem hframes
        (Pmm.allocPages_eq_some halloc).1 hfailed
    · have hT : T < lowFrames := hlow
      have hfree := hnew.range.1 T (Nat.le_refl T) (Nat.lt_succ_self T)
      have hD : T ≠ D := fun he => by rw [he, ho.used] at hfree; cases hfree
      have hD' : T ≠ D + 1 := fun he => by rw [he, ho.used'] at hfree; cases hfree
      rw [if_neg (by omega)] at h₁
      obtain ⟨rfl, rfl⟩ := Prod.mk.inj (Option.some.inj h₁)
      refine .newTable hp hT hnew (ho.free T hT hfree) ?_ (Pmm.allocPages_eq_some halloc).1 hfailed
      have hset := pageSet_new (m := s.mem) phys writable hi hj hD hD'
      have hzero : (((s.mem.zeroFrames T 1).setWord (D + 1) (pageDirIdx va)
          (kp2v (4096 * T))).setWord D (pageDirIdx va)
          (tableWord (s.mem.word D (pageDirIdx va)) T)).word T (pageTblIdx va) = 0 := by
        rw [Mem.word_setWord_of_ne _ _ hi hj (Or.inl hD), Mem.word_setWord_of_ne _ _ hi hj
          (Or.inl hD'), Mem.word_zeroFrames _ hj (Nat.le_refl _) (by omega)]
      simp only [hmem, newTable_eq hdir hT hi hD]
      unfold setPage
      rw [putPage_eq (kv2p_kp2v_frame hT), getPage_eq (kv2p_kp2v_frame hT), hzero]
      exact hset

/-- A turn does not return only where the search for a table's frame does not. -/
theorem procMapPage_none (hdir : kv2p dir = 4096 * D)
    (h : procMapPage dir va phys writable s = none) :
    (PageDirEntry.decode (s.mem.word D (pageDirIdx va))).present = false ∧
      Mm.allocPages s.framemap pmmFlagsDefault 1 = none := by
  unfold procMapPage at h
  simp only [getDirEntry_eq hdir] at h
  split at h
  · rename_i habsent
    refine ⟨habsent, Pmm.allocPages_eq_none.1 ?_⟩
    cases ha : s.allocPages pmmFlagsDefault 1 with
    | none => rfl
    | some new =>
      rw [ha, Option.bind_eq_bind, Option.bind_some] at h
      split at h
      · cases h
      · cases h
  split at h
  · cases h
  · cases h

/-! ## What a turn leaves -/

theorem decode_tableWord (w T : Nat) : PageDirEntry.decode (tableWord w T) =
    { PageDirEntry.decode w with
      present := true, rw := true, user := true, frame := BitVec.ofNat 20 T } :=
  PageDirEntry.decode_encode _

theorem decode_sharedWord (w : Nat) (writable : Bool) : PageDirEntry.decode (sharedWord w writable) =
    { PageDirEntry.decode w with rw := (PageDirEntry.decode w).rw || writable, user := true } :=
  PageDirEntry.decode_encode _

theorem decode_pageWord (w phys : Nat) (writable : Bool) : Page.decode (pageWord w phys writable) =
    { Page.decode w with
      frame := BitVec.ofNat 20 (pageFrame phys), present := true, rw := writable, user := true } :=
  Page.decode_encode _

theorem toNat_ofNat_low {T : Nat} (h : T < lowFrames) : (BitVec.ofNat 20 T).toNat = T := by
  simp only [lowFrames] at h
  rw [BitVec.toNat_ofNat]
  omega

variable {i j : Nat}

theorem PageTurn.framemap (h : PageTurn D i j phys writable P s s' ok) {f : Nat}
    (hf : s.framemap.test f = true) : s'.framemap.test f = true := by
  cases h with
  | noTable _ _ _ hframes _ _ =>
    rw [hframes]
    exact hf
  | newTable _ _ hnew _ _ _ _ =>
    rw [hnew.marked, Bitmap.test_setRange (by decide), hf]
    exact Bool.or_true _
  | hasTable _ _ _ _ _ _ _ hframes _ =>
    rw [hframes]
    exact hf

/-- Only the directory and one of its tables are written. -/
theorem PageTurn.others (h : PageTurn D i j phys writable P s s' ok) {f : Nat} (hD : f ≠ D)
    (hD' : f ≠ D + 1) (hP : ¬ P f) : s.mem.SameFrame s'.mem f := by
  cases h with
  | noTable _ _ hmem _ _ _ =>
    rw [hmem]
    exact .refl _ f
  | newTable _ _ _ hPT hset _ _ => exact hset.others f hD hD' fun he => hP (he ▸ hPT)
  | hasTable _ _ hPT _ _ _ hset _ _ => exact hset.others f hD hD' fun he => hP (he ▸ hPT)

/-- Entries other than the page's own are as before. -/
theorem PageTurn.entries (h : PageTurn D i j phys writable P s s' ok) {i' : Nat} (hi' : i' < 1024)
    (hne : i' ≠ i) : s'.mem.word D i' = s.mem.word D i' ∧
      s'.mem.word (D + 1) i' = s.mem.word (D + 1) i' := by
  cases h with
  | noTable _ _ hmem _ _ _ => rw [hmem]; exact ⟨rfl, rfl⟩
  | newTable _ _ _ _ hset _ _ => exact ⟨hset.entries i' hi' hne, hset.pointers i' hi' hne⟩
  | hasTable _ _ _ _ _ _ hset _ _ => exact ⟨hset.entries i' hi' hne, hset.pointers i' hi' hne⟩

/-- The two views of the directory go on naming the same tables, all of them in use. -/
theorem PageTurn.mirrored (h : PageTurn D i j phys writable P s s' ok)
    (hm : Mirrored s.mem D I fun T => P T ∧ s.framemap.test T = true) :
    Mirrored s'.mem D I fun T => P T ∧ s'.framemap.test T = true := by
  intro i' hi' hI hp
  by_cases hne : i' = i
  · subst hne
    cases h with
    | noTable habsent _ hmem _ _ _ =>
      rw [hmem, habsent] at hp
      cases hp
    | @newTable T _ hT hnew hPT hset _ _ =>
      have hused : s'.framemap.test T = true := by
        rw [hnew.range.2, decide_eq_true ⟨Nat.le_refl T, Nat.lt_succ_self T⟩]
        rfl
      refine ⟨T, hT, ⟨hPT, hused⟩, hset.pointer, ?_⟩
      rw [hset.entry, if_pos rfl, decode_tableWord]
      exact toNat_ofNat_low hT
    | @hasTable T _ hT hPT hused hpointer hframe hset hframes _ =>
      refine ⟨T, hT, ⟨hPT, by rw [hframes]; exact hused⟩, hset.pointer, ?_⟩
      rw [hset.entry, if_neg Bool.false_ne_true, decode_sharedWord]
      exact hframe
  · rw [(h.entries hi' hne).1] at hp ⊢
    rw [(h.entries hi' hne).2]
    obtain ⟨T, hT, ⟨hPT, hused⟩, hrest⟩ := hm i' hi' hI hp
    exact ⟨T, hT, ⟨hPT, h.framemap hused⟩, hrest⟩

theorem OwnDirectory.turn (ho : OwnDirectory s D I P) (h : PageTurn D i j phys writable P s s' ok) :
    OwnDirectory s' D I P := by
  refine ⟨h.framemap ho.frame0, h.framemap ho.used, h.framemap ho.used', ho.apart, ho.apart',
    fun f hf hfree => ho.free f hf ?_, h.mirrored ho.mirrored⟩
  cases hused : s.framemap.test f with
  | false => rfl
  | true =>
    rw [h.framemap hused] at hfree
    cases hfree

end Turn

/-! ## The loop -/

section Loop

variable {s s' : Pmm} {dir D virt phys i n : Nat} {writable ok : Bool} {I P : Nat → Prop}

/-- The virtual address of page `k`. -/
def pageVirt (virt k : Nat) : Nat := wadd virt (wmul k pageSize)

theorem pageVirt_lt (virt k : Nat) : pageVirt virt k < 4294967296 := wadd_lt _ _

/-- What each turn that succeeds keeps holds at the end, or where the loop gives up. -/
theorem procMapLoop_rule {Q : Nat → Pmm → Prop}
    (h : procMapLoop dir virt phys writable i n s = some (s', ok))
    (step : ∀ k t t', i ≤ k → k < i + n → Q k t →
      procMapPage dir (pageVirt virt k) (pageVirt phys k) writable t = some (t', true) → Q (k + 1) t')
    (hs : Q i s) :
    ok = true ∧ Q (i + n) s' ∨ ok = false ∧ ∃ k t, i ≤ k ∧ k < i + n ∧ Q k t ∧
      procMapPage dir (pageVirt virt k) (pageVirt phys k) writable t = some (s', false) := by
  induction n generalizing i s with
  | zero =>
    cases h
    exact Or.inl ⟨rfl, hs⟩
  | succ n ih =>
    obtain ⟨⟨t, okt⟩, h₁, h₂⟩ := Option.bind_eq_some_iff.1 h
    cases okt with
    | false =>
      cases h₂
      exact Or.inr ⟨rfl, i, s, Nat.le_refl _, by omega, hs, h₁⟩
    | true =>
      have hnext := step i s t (Nat.le_refl _) (by omega) hs h₁
      rcases ih h₂ (fun k u u' hk hk' => step k u u' (by omega) (by omega)) hnext with
        ⟨hok, hQ⟩ | ⟨hok, k, u, hk, hk', hQ, hlast⟩
      · exact Or.inl ⟨hok, by rw [← Nat.add_assoc, Nat.add_right_comm]; exact hQ⟩
      · exact Or.inr ⟨hok, k, u, by omega, by omega, hQ, hlast⟩

/-- Only the entries `I` of the directory and the frames `P` are written, and no frame is
given back. -/
structure WritesOnly (D : Nat) (I P : Nat → Prop) (s s' : Pmm) : Prop where
  used : ∀ f, s.framemap.test f = true → s'.framemap.test f = true
  others : ∀ f, f ≠ D → f ≠ D + 1 → ¬ P f → s.mem.SameFrame s'.mem f
  entries : ∀ i < 1024, ¬ I i → s'.mem.word D i = s.mem.word D i ∧
    s'.mem.word (D + 1) i = s.mem.word (D + 1) i

theorem WritesOnly.refl (D : Nat) (I P : Nat → Prop) (s : Pmm) : WritesOnly D I P s s :=
  ⟨fun _ hf => hf, fun f _ _ _ => .refl _ f, fun _ _ _ => ⟨rfl, rfl⟩⟩

theorem WritesOnly.turn {t t' : Pmm} {j pa : Nat} (h : WritesOnly D I P s t)
    (ht : PageTurn D i j pa writable P t t' ok) (hI : I i) : WritesOnly D I P s t' where
  used := fun f hf => ht.framemap (h.used f hf)
  others := fun f hD hD' hP => (h.others f hD hD' hP).trans (ht.others hD hD' hP)
  entries := by
    intro l hl hnot
    obtain ⟨h₁, h₂⟩ := h.entries l hl hnot
    obtain ⟨h₃, h₄⟩ := ht.entries hl fun he => hnot (he ▸ hI)
    exact ⟨h₃.trans h₁, h₄.trans h₂⟩

/-- Mapping pages of the indices `I` keeps the directory in order and writes nothing but it
and its tables; it gives up only where no table can be had. -/
theorem procMapLoop_own (hdir : kv2p dir = 4096 * D) (ho : OwnDirectory s D I P)
    (hI : ∀ k, i ≤ k → k < i + n → I (pageDirIdx (pageVirt virt k)))
    (h : procMapLoop dir virt phys writable i n s = some (s', ok)) :
    OwnDirectory s' D I P ∧ WritesOnly D I P s s' ∧
      (ok = false → ∀ f < lowFrames, s'.framemap.test f = true) := by
  have hturn : ∀ k t t' okt, i ≤ k → k < i + n → OwnDirectory t D I P →
      procMapPage dir (pageVirt virt k) (pageVirt phys k) writable t = some (t', okt) →
      PageTurn D (pageDirIdx (pageVirt virt k)) (pageTblIdx (pageVirt virt k)) (pageVirt phys k)
        writable P t t' okt :=
    fun k t t' okt hk hk' hot => procMapPage_turn hdir hot (pageVirt_lt virt k) (hI k hk hk')
  have hrule := procMapLoop_rule h (Q := fun _ t => OwnDirectory t D I P ∧ WritesOnly D I P s t) ?_
    ⟨ho, .refl D I P s⟩
  · rcases hrule with ⟨rfl, ho', hw⟩ | ⟨rfl, k, t, hk, hk', ⟨hot, hw⟩, hlast⟩
    · exact ⟨ho', hw, nofun⟩
    · have ht := hturn k t s' false hk hk' hot hlast
      refine ⟨hot.turn ht, hw.turn ht (hI k hk hk'), fun _ f hf => ht.framemap ?_⟩
      cases ht with
      | noTable _ hnone _ _ _ _ => exact hnone f hf
  · rintro k t t' hk hk' ⟨hot, hw⟩ hpage
    have ht := hturn k t t' true hk hk' hot hpage
    exact ⟨hot.turn ht, hw.turn ht (hI k hk hk')⟩

end Loop

end BrownieOS.Process
