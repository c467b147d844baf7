import BrownieOS.Mm.FrameSearch
import BrownieOS.Process.MapPages
import BrownieOS.Process.Table

/-!
# `proc_map_pages` maps what it was asked to map

`UserMapping` is what a call establishes for each of its pages and what every later call
keeps for the pages it leaves alone: a page mapped writable has a writable directory entry,
so raising an entry for one page does not widen another. Every turn of the loop changes the
walk to one page; the walks to all others find the same page as before.
-/
namespace BrownieOS.Process

open BrownieOS.Lib BrownieOS.Lib.Word32 BrownieOS.Mm

/-- A directory of a process, in two frames of its own: both views name the same tables,
which are other frames in use, each in one entry. -/
structure ProcessDirectory (s : Pmm) (dir D : Nat) : Prop where
  pointer : kv2p dir = 4096 * D
  used : s.framemap.test D = true
  used' : s.framemap.test (D + 1) = true
  mirrored : Mirrored s.mem D (fun _ => True) fun T =>
    (T ≠ D ∧ T ≠ D + 1) ∧ s.framemap.test T = true
  unshared : ∀ i < 1024, ∀ i' < 1024, (PageDirEntry.decode (s.mem.word D i)).present = true →
    (PageDirEntry.decode (s.mem.word D i')).present = true →
    (PageDirEntry.decode (s.mem.word D i)).frame = (PageDirEntry.decode (s.mem.word D i')).frame → i = i'

/-- User mode reaches `pa` at `va`, for writing if `w`; the page itself is marked so. -/
structure UserMapping (m : Mem) (cr3 va pa : Nat) (w : Bool) : Prop where
  translates : Mm.translate m cr3 va = some pa
  user : userAccessible m cr3 va = true
  write : writable m cr3 va = w
  page : ∀ found, walk m cr3 va = some found → found.2.rw = w

/-- The walk finds the same page, through an entry that allows no less. -/
inductive Widened : Option (PageDirEntry × Page) → Option (PageDirEntry × Page) → Prop
  | unmapped : Widened none none
  | mapped {e e' : PageDirEntry} {p : Page} : (e.user = true → e'.user = true) →
      (e.rw = true → e'.rw = true) → Widened (some (e, p)) (some (e', p))

/-- Where the table of an entry comes from. -/
inductive TableFrom (s t : Pmm) (D i : Nat) : Prop
  | none : (PageDirEntry.decode (s.mem.word D i)).present = false →
      (PageDirEntry.decode (t.mem.word D i)).present = false → TableFrom s t D i
  | kept : (PageDirEntry.decode (s.mem.word D i)).present = true →
      (PageDirEntry.decode (t.mem.word D i)).present = true →
      (PageDirEntry.decode (t.mem.word D i)).frame = (PageDirEntry.decode (s.mem.word D i)).frame →
      TableFrom s t D i
  | fresh : (PageDirEntry.decode (s.mem.word D i)).present = false →
      (PageDirEntry.decode (t.mem.word D i)).present = true →
      s.framemap.test (PageDirEntry.decode (t.mem.word D i)).frame.toNat = false →
      t.framemap.test (PageDirEntry.decode (t.mem.word D i)).frame.toNat = true → TableFrom s t D i

section Walks

variable {m m' : Mem} {cr3 va pa : Nat} {w : Bool} {x y z : Option (PageDirEntry × Page)}

theorem Widened.refl (x : Option (PageDirEntry × Page)) : Widened x x := by
  cases x with
  | none => exact .unmapped
  | some found => exact .mapped id id

theorem Widened.trans (h : Widened x y) (h' : Widened y z) : Widened x z := by
  cases h with
  | unmapped => exact h'
  | mapped hu hw =>
    cases h' with
    | mapped hu' hw' => exact .mapped (fun h => hu' (hu h)) fun h => hw' (hw h)

theorem Widened.eq_none (h : Widened none x) : x = none := by
  cases h
  rfl

/-- A mapping by what the walk finds. -/
theorem userMapping_of_walk {e : PageDirEntry} {p : Page} (h : walk m cr3 va = some (e, p))
    (hpa : framePaddr p.frame + va % 4096 = pa) (hu : e.user = true) (hu' : p.user = true)
    (hw : w = true → e.rw = true) (hw' : p.rw = w) : UserMapping m cr3 va pa w := by
  constructor
  · simp [Mm.translate, h, hpa]
  · simp [userAccessible, h, hu, hu']
  · subst hw'
    simpa [writable, h] using hw
  · intro found hfound
    rw [h] at hfound
    cases hfound
    exact hw'

theorem UserMapping.widened (h : UserMapping m cr3 va pa w) (hw : Widened (walk m cr3 va) (walk m' cr3 va)) :
    UserMapping m' cr3 va pa w := by
  obtain ⟨htr, huser, hwrite, hpage⟩ := h
  generalize hold : walk m cr3 va = old at hw
  generalize hnew : walk m' cr3 va = new at hw
  cases hw with
  | unmapped => simp [Mm.translate, hold] at htr
  | @mapped e e' p hu hr =>
    simp [Mm.translate, hold] at htr
    simp [userAccessible, hold] at huser
    simp [writable, hold] at hwrite
    have hp := hpage _ hold
    refine userMapping_of_walk hnew htr (hu huser.1) huser.2 (fun h => hr ?_) hp
    subst h
    simp at hwrite
    exact hwrite.1

/-- The walk in frames and words. -/
theorem walk_frames (m : Mem) (D va : Nat) : walk m (4096 * D) va =
    if (PageDirEntry.decode (m.word D (pageDirIdx va))).present then
      if (Page.decode (m.word (PageDirEntry.decode (m.word D (pageDirIdx va))).frame.toNat
        (pageTblIdx va))).present then
        some (PageDirEntry.decode (m.word D (pageDirIdx va)), Page.decode (m.word
          (PageDirEntry.decode (m.word D (pageDirIdx va))).frame.toNat (pageTblIdx va)))
      else none
    else none := by
  simp only [walk, Mem.word, framePaddr, Nat.mul_comm]

end Walks

/-! ## One turn -/

section Turn

variable {s s' : Pmm} {dir D T i j va phys : Nat} {w new : Bool} {P : Nat → Prop}

/-- With frame 0 free the allocator hands it out, which its callers take for a failure. -/
theorem allocPages_frame0_free {framemap : FrameMap} (h : framemap.test 0 = false) :
    ∃ framemap', Mm.allocPages framemap pmmFlagsDefault 1 = some (0, framemap') := by
  have hpass := @allocPagesScan_pass framemap kernIdentityPhysEnd 1 0 1 0 (scanFuel - 1) (by decide)
    (by decide) (by decide) (Nat.le_refl 0) (fun q hq => by simp only [kernIdentityPhysEnd]; omega)
  have hfirst : scanRuns (freeFrame framemap) 1 0 0 1 = .inl 0 := by
    have hfree : freeFrame framemap 0 = true := by simp [freeFrame, h]
    simp [scanRuns, hfree]
  have hfuel : 1 + (scanFuel - 1) = scanFuel := by decide
  rw [hfirst, hfuel] at hpass
  have hscan : allocPagesScan framemap kernIdentityPhysEnd 1 scanFuel 0 0 = some (some 0) := hpass
  have hflag : ¬ (pmmFlagsDefault &&& pmmFlagsHighmem ≠ 0) := by decide
  simp only [Mm.allocPages, if_neg hflag, hscan]
  exact ⟨_, rfl⟩

/-- So a turn that succeeds then finds its table. -/
theorem procMapPage_frame0_free (hdir : kv2p dir = 4096 * D) (h0 : s.framemap.test 0 = false)
    (h : procMapPage dir va phys w s = some (s', true)) :
    (PageDirEntry.decode (s.mem.word D (pageDirIdx va))).present = true := by
  cases hp : (PageDirEntry.decode (s.mem.word D (pageDirIdx va))).present with
  | true => rfl
  | false =>
    obtain ⟨framemap', halloc⟩ := allocPages_frame0_free h0
    unfold procMapPage at h
    simp only [getDirEntry_eq hdir, getTable_eq hdir] at h
    rw [if_pos hp, Pmm.allocPages_of_eq_some halloc, Option.bind_eq_bind, Option.bind_some] at h
    cases h

theorem ProcessDirectory.pageTurn (hd : ProcessDirectory s dir D) (hva : va < 4294967296)
    (h : procMapPage dir va phys w s = some (s', true)) :
    PageTurn D (pageDirIdx va) (pageTblIdx va) phys w (fun f => f ≠ D ∧ f ≠ D + 1) s s' true := by
  cases h0 : s.framemap.test 0 with
  | true =>
    refine procMapPage_turn hd.pointer (I := fun _ => True) ⟨h0, hd.used, hd.used', by simp, by simp,
      fun f _ hfree => ?_, hd.mirrored⟩ hva trivial h
    constructor
    · intro he
      rw [he, hd.used] at hfree
      cases hfree
    · intro he
      rw [he, hd.used'] at hfree
      cases hfree
  | false =>
    have hp := procMapPage_frame0_free hd.pointer h0 h
    obtain ⟨T, hT, ⟨hapart, hused⟩, hpointer, hframe⟩ :=
      hd.mirrored _ (pageDirIdx_lt hva) trivial hp
    exact procMapPage_shared hd.pointer hva hp hT hapart hused hpointer hframe hapart.1 hapart.2 h

/-- A turn that succeeds, by the table it writes to, new or not. -/
structure TurnTable (D T i j phys : Nat) (w new : Bool) (s s' : Pmm) : Prop where
  low : T < lowFrames
  apart : T ≠ D ∧ T ≠ D + 1
  set : PageSet D T i j phys w new s.mem s'.mem
  present : (PageDirEntry.decode (s.mem.word D i)).present = !new
  before : s.framemap.test T = !new
  after : s'.framemap.test T = true
  frame : new = false → (PageDirEntry.decode (s.mem.word D i)).frame.toNat = T

theorem PageTurn.table (h : PageTurn D i j phys w (fun f => f ≠ D ∧ f ≠ D + 1) s s' true) :
    ∃ T new, TurnTable D T i j phys w new s s' := by
  cases h with
  | @newTable T habsent hT hnew hapart hset _ _ =>
    obtain ⟨hfree, hmarked⟩ := hnew.range
    refine ⟨T, true, hT, hapart, hset, habsent, hfree T (Nat.le_refl T) (Nat.lt_succ_self T), ?_, nofun⟩
    rw [hmarked, decide_eq_true ⟨Nat.le_refl T, Nat.lt_succ_self T⟩]
    rfl
  | @hasTable T hp hT hapart hused _ hframe hset hframes _ =>
    exact ⟨T, false, hT, hapart, hset, hp, hused, by rw [hframes]; exact hused, fun _ => hframe⟩

namespace TurnTable

variable (h : TurnTable D T i j phys w new s s')

include h

/-- The entry of the page after the turn. -/
theorem entry : (PageDirEntry.decode (s'.mem.word D i)).present = true ∧
    (PageDirEntry.decode (s'.mem.word D i)).user = true ∧
    (w = true → (PageDirEntry.decode (s'.mem.word D i)).rw = true) ∧
    (PageDirEntry.decode (s'.mem.word D i)).frame.toNat = T := by
  have hp := h.present
  rw [h.set.entry]
  cases new with
  | true =>
    rw [if_pos rfl, decode_tableWord]
    exact ⟨rfl, rfl, fun _ => rfl, toNat_ofNat_low h.low⟩
  | false =>
    rw [if_neg Bool.false_ne_true, decode_sharedWord]
    refine ⟨hp, rfl, fun hw => ?_, h.frame rfl⟩
    rw [hw]
    exact Bool.or_true _

/-- An entry that was there is raised, not changed otherwise. -/
theorem entry_kept (hnew : new = false) :
    ((PageDirEntry.decode (s.mem.word D i)).rw = true →
      (PageDirEntry.decode (s'.mem.word D i)).rw = true) ∧
    (PageDirEntry.decode (s'.mem.word D i)).frame = (PageDirEntry.decode (s.mem.word D i)).frame := by
  rw [h.set.entry, if_neg (by simp [hnew]), decode_sharedWord]
  refine ⟨fun hw => ?_, rfl⟩
  show ((PageDirEntry.decode (s.mem.word D i)).rw || w) = true
  rw [hw]
  rfl

/-- The turn's table is not the table of another entry. -/
theorem other (hd : ProcessDirectory s dir D) (hi : i < 1024) {i' : Nat} (hi' : i' < 1024)
    (hne : i' ≠ i) (hp : (PageDirEntry.decode (s.mem.word D i')).present = true) :
    (PageDirEntry.decode (s.mem.word D i')).frame.toNat ≠ T := by
  obtain ⟨T', -, ⟨-, hused⟩, -, hframe⟩ := hd.mirrored i' hi' trivial hp
  intro he
  have hpresent := h.present
  have hbefore := h.before
  cases new with
  | true =>
    rw [hframe] at he
    rw [← he, hused] at hbefore
    cases hbefore
  | false =>
    refine hne (hd.unshared i' hi' i hi hp hpresent ?_)
    apply BitVec.eq_of_toNat_eq
    rw [he, h.frame rfl]

theorem directory (hd : ProcessDirectory s dir D) (hi : i < 1024)
    (ht : PageTurn D i j phys w (fun f => f ≠ D ∧ f ≠ D + 1) s s' true) :
    ProcessDirectory s' dir D := by
  refine ⟨hd.pointer, ht.framemap hd.used, ht.framemap hd.used', ht.mirrored hd.mirrored, ?_⟩
  -- the page's own entry against another one
  have hown : ∀ i' < 1024, i' ≠ i → (PageDirEntry.decode (s'.mem.word D i')).present = true →
      (PageDirEntry.decode (s'.mem.word D i')).frame ≠ (PageDirEntry.decode (s'.mem.word D i)).frame := by
    intro i' hi' hne hp he
    obtain ⟨-, -, -, hframe⟩ := h.entry
    rw [(ht.entries hi' hne).1] at hp he
    apply h.other hd hi hi' hne hp
    rw [he, hframe]
  intro i₁ hi₁ i₂ hi₂ hp₁ hp₂ hframe
  by_cases h₁ : i₁ = i
  · by_cases h₂ : i₂ = i
    · rw [h₁, h₂]
    · rw [h₁] at hframe
      exact absurd hframe.symm (hown i₂ hi₂ h₂ hp₂)
  · by_cases h₂ : i₂ = i
    · rw [h₂] at hframe
      exact absurd hframe (hown i₁ hi₁ h₁ hp₁)
    · rw [(ht.entries hi₁ h₁).1] at hp₁ hframe
      rw [(ht.entries hi₂ h₂).1] at hp₂ hframe
      exact hd.unshared i₁ hi₁ i₂ hi₂ hp₁ hp₂ hframe

/-- What the walk finds for the page after the turn. -/
theorem target (hi : pageDirIdx va = i) (hj : pageTblIdx va = j) (hva : va % 4096 = 0)
    (hphys : phys < 4294967296) (hphys' : phys % 4096 = 0) : UserMapping s'.mem (4096 * D) va phys w := by
  obtain ⟨hp, hu, hrw, hframe⟩ := h.entry
  have hpage := congrArg Page.decode h.set.page
  rw [decode_pageWord] at hpage
  have hwalk : walk s'.mem (4096 * D) va =
      some (.decode (s'.mem.word D i), .decode (s'.mem.word T j)) := by
    rw [walk_frames, hi, hj, if_pos hp, hframe, hpage, if_pos rfl]
  apply userMapping_of_walk hwalk
  · rw [hpage, hva]
    show (BitVec.ofNat 20 (pageFrame phys)).toNat * 4096 + 0 = phys
    simp only [pageFrame, BitVec.toNat_ofNat]
    omega
  · exact hu
  · rw [hpage]
  · exact hrw
  · rw [hpage]

/-- The walks to all other pages find what they found. -/
theorem widened (hd : ProcessDirectory s dir D) (hi : i < 1024)
    (ht : PageTurn D i j phys w (fun f => f ≠ D ∧ f ≠ D + 1) s s' true) (hva : va < 4294967296)
    (hne : pageDirIdx va ≠ i ∨ pageTblIdx va ≠ j) :
    Widened (walk s.mem (4096 * D) va) (walk s'.mem (4096 * D) va) ∧
      (pageDirIdx va ≠ i → walk s'.mem (4096 * D) va = walk s.mem (4096 * D) va) := by
  have hl := pageDirIdx_lt hva
  have hj := pageTblIdx_lt va
  by_cases hidx : pageDirIdx va = i
  · refine ⟨?_, fun hother => absurd hidx hother⟩
    have hbeside : pageTblIdx va ≠ j := by
      rcases hne with hne | hne
      · exact absurd hidx hne
      · exact hne
    obtain ⟨hp, hu, -, hframe⟩ := h.entry
    have hpage := h.set.pages _ hj hbeside
    rw [walk_frames, walk_frames, hidx, h.present, hp, hframe, hpage]
    cases hnew : new with
    | true =>
      have hzero : (Page.decode 0).present = false := rfl
      simp only [Bool.not_true, Bool.false_eq_true, ↓reduceIte, hzero]
      exact .unmapped
    | false =>
      obtain ⟨hrw, -⟩ := h.entry_kept hnew
      rw [h.frame hnew]
      simp only [Bool.not_false, ↓reduceIte, Bool.false_eq_true]
      split
      · exact .mapped (fun _ => hu) hrw
      · exact .unmapped
  · have hsame : walk s'.mem (4096 * D) va = walk s.mem (4096 * D) va := by
      rw [walk_frames, walk_frames, (ht.entries hl hidx).1]
      cases hp : (PageDirEntry.decode (s.mem.word D (pageDirIdx va))).present with
      | false => rfl
      | true =>
        obtain ⟨T', -, ⟨⟨hD, hD'⟩, -⟩, -, hframe'⟩ := hd.mirrored _ hl trivial hp
        have hother := h.other hd hi hl hidx hp
        rw [hframe'] at hother ⊢
        rw [(h.set.others T' hD hD' hother).word hj]
    exact ⟨hsame ▸ .refl _, fun _ => hsame⟩

end TurnTable

end Turn

/-! ## The loop -/

section Loop

variable {s t t' : Pmm} {dir D virt phys pages k : Nat} {w : Bool}

theorem TableFrom.turn {T i j i' : Nat} {new : Bool} (h : TableFrom s t D i')
    (hgrows : ∀ f, s.framemap.test f = true → t.framemap.test f = true)
    (ht : PageTurn D i j phys w (fun f => f ≠ D ∧ f ≠ D + 1) t t' true)
    (hT : TurnTable D T i j phys w new t t') (hi' : i' < 1024) : TableFrom s t' D i' := by
  by_cases hne : i' = i
  · subst hne
    have hpresent := hT.present
    obtain ⟨hp, -, -, hframe⟩ := hT.entry
    cases new with
    | true =>
      cases h with
      | none habsent _ =>
        refine .fresh habsent hp ?_ ?_
        · rw [hframe]
          cases hused : s.framemap.test T with
          | false => rfl
          | true => exact (hgrows T hused).symm.trans hT.before
        · rw [hframe]
          exact hT.after
      | kept _ hpt _ => exact absurd (hpt.symm.trans hpresent) (by decide)
      | fresh _ hpt _ _ => exact absurd (hpt.symm.trans hpresent) (by decide)
    | false =>
      obtain ⟨-, hkept⟩ := hT.entry_kept rfl
      cases h with
      | none _ habsent => exact absurd (habsent.symm.trans hpresent) (by decide)
      | kept hps _ hsame => exact .kept hps hp (hkept.trans hsame)
      | fresh habsent _ hfree hused =>
        rw [← hkept] at hfree hused
        exact .fresh habsent hp hfree (ht.framemap hused)
  · obtain ⟨hentry, -⟩ := ht.entries hi' hne
    cases h with
    | none h₁ h₂ => exact .none h₁ (hentry ▸ h₂)
    | kept h₁ h₂ h₃ => exact .kept h₁ (hentry ▸ h₂) (hentry ▸ h₃)
    | fresh h₁ h₂ h₃ h₄ => exact .fresh h₁ (hentry ▸ h₂) (hentry ▸ h₃) (ht.framemap (hentry ▸ h₄))

/-- The state after `k` turns, from the state `s` of the call. -/
structure MappedSoFar (s : Pmm) (dir D virt phys : Nat) (w : Bool) (k : Nat) (t : Pmm) : Prop where
  directory : ProcessDirectory t dir D
  grows : ∀ f, s.framemap.test f = true → t.framemap.test f = true
  mapped : ∀ i < k, UserMapping t.mem (4096 * D) (virt + 4096 * i) (phys + 4096 * i) w
  others : ∀ va < 4294967296, va < virt ∨ virt + 4096 * k ≤ va →
    Widened (walk s.mem (4096 * D) va) (walk t.mem (4096 * D) va)
  kernelEntries : ∀ i, 768 ≤ i → i < 1024 → t.mem.word D i = s.mem.word D i ∧
    t.mem.word (D + 1) i = s.mem.word (D + 1) i
  kernelWalks : ∀ va, 0xC0000000 ≤ va → va < 4294967296 →
    walk t.mem (4096 * D) va = walk s.mem (4096 * D) va
  tables : ∀ i < 1024, TableFrom s t D i

theorem MappedSoFar.start (hd : ProcessDirectory s dir D) : MappedSoFar s dir D virt phys w 0 s where
  directory := hd
  grows := fun _ hf => hf
  mapped := fun _ hi => absurd hi (Nat.not_lt_zero _)
  others := fun _ _ _ => .refl _
  kernelEntries := fun _ _ _ => ⟨rfl, rfl⟩
  kernelWalks := fun _ _ _ => rfl
  tables := fun i _ => by
    cases hp : (PageDirEntry.decode (s.mem.word D i)).present with
    | false => exact .none hp hp
    | true => exact .kept hp hp rfl

theorem pageVirt_eq (h : virt + 4096 * k < 4294967296) : pageVirt virt k = virt + 4096 * k := by
  have hmul : wmul k pageSize = 4096 * k := by
    rw [wmul_of_lt (by simp only [pageSize]; omega), Nat.mul_comm]
  rw [pageVirt, hmul, wadd_of_lt h]

theorem MappedSoFar.turn (h : MappedSoFar s dir D virt phys w k t) (hv : virt % 4096 = 0)
    (hp : phys % 4096 = 0) (hvirt : virt + 4096 * k < 0xC0000000)
    (hphys : phys + 4096 * k < 4294967296)
    (hpage : procMapPage dir (pageVirt virt k) (pageVirt phys k) w t = some (t', true)) :
    MappedSoFar s dir D virt phys w (k + 1) t' := by
  have hd := h.directory
  rw [pageVirt_eq (by omega), pageVirt_eq hphys] at hpage
  have hva : virt + 4096 * k < 4294967296 := by omega
  have hi : pageDirIdx (virt + 4096 * k) < 768 := by
    simp only [pageDirIdx]
    omega
  have ht := hd.pageTurn hva hpage
  obtain ⟨T, new, hT⟩ := ht.table
  have hwalks : ∀ va < 4294967296, va < virt + 4096 * k ∨ virt + 4096 * k + 4096 ≤ va →
      Widened (walk t.mem (4096 * D) va) (walk t'.mem (4096 * D) va) ∧
        (pageDirIdx va ≠ pageDirIdx (virt + 4096 * k) →
          walk t'.mem (4096 * D) va = walk t.mem (4096 * D) va) := by
    intro va hlt hout
    apply hT.widened hd (by omega) ht hlt
    simp only [pageDirIdx, pageTblIdx]
    omega
  constructor
  · exact hT.directory hd (by omega) ht
  · exact fun f hf => ht.framemap (h.grows f hf)
  · intro i hlt
    by_cases hlast : i = k
    · subst hlast
      exact hT.target rfl rfl (by omega) hphys (by omega)
    · have hbefore := h.mapped i (by omega)
      obtain ⟨hwide, -⟩ := hwalks (virt + 4096 * i) (by omega) (by omega)
      exact hbefore.widened hwide
  · intro va hlt hout
    have hbefore := h.others va hlt (by omega)
    obtain ⟨hwide, -⟩ := hwalks va hlt (by omega)
    exact hbefore.trans hwide
  · intro i h₀ h₁
    obtain ⟨hentry, hpointer⟩ := ht.entries h₁ (show i ≠ pageDirIdx (virt + 4096 * k) by omega)
    obtain ⟨hentry', hpointer'⟩ := h.kernelEntries i h₀ h₁
    exact ⟨hentry.trans hentry', hpointer.trans hpointer'⟩
  · intro va h₀ h₁
    have hidx : 768 ≤ pageDirIdx va := by
      simp only [pageDirIdx]
      omega
    rw [← h.kernelWalks va h₀ h₁]
    exact (hwalks va h₁ (by omega)).2 (by omega)
  · exact fun i hlt => (h.tables i hlt).turn h.grows ht hT hlt

/-- What a call that returns 0 has done: its pages are mapped, whatever was mapped so for
other addresses is as it was, what was unmapped is, and the kernel half is untouched. A table
that was not there before is in a frame that was free. -/
structure MapsExactly (s s' : Pmm) (D virt phys pages : Nat) (w : Bool) : Prop where
  mapped : ∀ i < pages, UserMapping s'.mem (4096 * D) (virt + 4096 * i) (phys + 4096 * i) w
  kept : ∀ va < 0xC0000000, va < virt ∨ virt + 4096 * pages ≤ va → ∀ pa w',
    UserMapping s.mem (4096 * D) va pa w' → UserMapping s'.mem (4096 * D) va pa w'
  unmapped : ∀ va < 0xC0000000, va < virt ∨ virt + 4096 * pages ≤ va →
    walk s.mem (4096 * D) va = none → walk s'.mem (4096 * D) va = none
  kernelEntries : ∀ i, 768 ≤ i → i < 1024 → s'.mem.word D i = s.mem.word D i ∧
    s'.mem.word (D + 1) i = s.mem.word (D + 1) i
  kernelWalks : ∀ va, 0xC0000000 ≤ va → va < 4294967296 →
    walk s'.mem (4096 * D) va = walk s.mem (4096 * D) va
  tables : ∀ i < 1024, TableFrom s s' D i

/-- The loop on a process directory, when it maps all its pages. -/
theorem procMapLoop_exact (hd : ProcessDirectory s dir D) (hv : virt % 4096 = 0)
    (hp : phys % 4096 = 0) (hvirt : virt + 4096 * pages ≤ 0xC0000000)
    (hphys : phys + 4096 * pages ≤ 4294967296)
    (h : procMapLoop dir virt phys w 0 pages s = some (t, true)) :
    MapsExactly s t D virt phys pages w ∧ ProcessDirectory t dir D := by
  have hrule := procMapLoop_rule (Q := MappedSoFar s dir D virt phys w) h ?_ (.start hd)
  · rcases hrule with ⟨-, hdone⟩ | ⟨hfailed, -⟩
    · rw [Nat.zero_add] at hdone
      refine ⟨⟨hdone.mapped, ?_, ?_, hdone.kernelEntries, hdone.kernelWalks, hdone.tables⟩,
        hdone.directory⟩
      · intro va hlow hout pa w' hmapping
        exact hmapping.widened (hdone.others va (by omega) hout)
      · intro va hlow hout hnone
        have hwide := hdone.others va (by omega) hout
        rw [hnone] at hwide
        exact hwide.eq_none
    · cases hfailed
  · intro c u u' _ hc hsofar hpage
    exact hsofar.turn hv hp (by omega) (by omega) hpage

/-- A call is turned down at once, or it is its loop. -/
theorem procMapPages_cases {k k' : Kernel} {proc : Nat} {ok : Bool}
    (h : procMapPages k proc virt phys pages w = some (k', ok)) :
    ((proc = 0 ∨ (k.procs proc).pageDirectory = 0 ∨ pages = 0) ∧ k' = k ∧ ok = false) ∨
      ∃ s', procMapLoop (k.procs proc).pageDirectory virt phys w 0 pages k.pmm = some (s', ok) ∧
        k' = { k with pmm := s' } := by
  unfold procMapPages at h
  split at h
  · rename_i hdown
    obtain ⟨rfl, rfl⟩ := Prod.mk.inj (Option.some.inj h)
    exact Or.inl ⟨hdown, rfl, rfl⟩
  · obtain ⟨⟨s', ok'⟩, hloop, hret⟩ := Option.bind_eq_some_iff.1 h
    obtain ⟨rfl, rfl⟩ := Prod.mk.inj (Option.some.inj hret)
    exact Or.inr ⟨s', hloop, rfl⟩

/-- A call that returns 0 has run its loop to the end. -/
theorem procMapPages_loop {k k' : Kernel} {proc : Nat}
    (h : procMapPages k proc virt phys pages w = some (k', true)) :
    procMapLoop (k.procs proc).pageDirectory virt phys w 0 pages k.pmm = some (k'.pmm, true) ∧
      k'.procs = k.procs := by
  rcases procMapPages_cases h with ⟨-, -, hok⟩ | ⟨s', hloop, rfl⟩
  · cases hok
  · exact ⟨hloop, rfl⟩

/-- `proc_map_pages` on a process directory, when it returns 0. -/
theorem proc_map_pages_exact {k k' : Kernel} {proc : Nat}
    (hd : ProcessDirectory k.pmm (k.procs proc).pageDirectory D) (hv : virt % 4096 = 0)
    (hp : phys % 4096 = 0) (hvirt : virt + 4096 * pages ≤ 0xC0000000)
    (hphys : phys + 4096 * pages ≤ 4294967296)
    (h : procMapPages k proc virt phys pages w = some (k', true)) :
    MapsExactly k.pmm k'.pmm D virt phys pages w ∧
      ProcessDirectory k'.pmm (k'.procs proc).pageDirectory D := by
  obtain ⟨hloop, hprocs⟩ := procMapPages_loop h
  rw [hprocs]
  exact procMapLoop_exact hd hv hp hvirt hphys hloop

/-- A kernel whose processes have an empty directory in frames 2 and 3, with frame 8 the
first that is free. -/
def emptySpace : Kernel := { sampleKernel 0 with
  pmm := ⟨fun _ => 0, fun cell => if cell = 0 then 0xFF#8 else 0#8, false⟩
  procs := fun p => { (sampleKernel 0).procs p with pageDirectory := 0xC0002000 } }

theorem emptySpace_absent (i : Nat) :
    (PageDirEntry.decode (emptySpace.pmm.mem.word 2 i)).present = false := by
  have hzero : emptySpace.pmm.mem.word 2 i = 0 := rfl
  rw [hzero]
  rfl

theorem emptySpace_directory : ProcessDirectory emptySpace.pmm 0xC0002000 2 where
  pointer := rfl
  used := rfl
  used' := rfl
  mirrored := fun i _ _ hp => absurd hp (by simp [emptySpace_absent])
  unshared := fun i _ _ _ hp _ _ => absurd hp (by simp [emptySpace_absent])

/-- A page that can only be read, and then two that can be written: the first of them comes
into the table that is there, the other into a new one. -/
theorem proc_map_pages_exact_two_tables : ∃ k₁ k₂,
    procMapPages emptySpace 1 0x3FE000 0x500000 1 false = some (k₁, true) ∧
      procMapPages k₁ 1 0x3FF000 0x600000 2 true = some (k₂, true) ∧
      MapsExactly k₁.pmm k₂.pmm 2 0x3FF000 0x600000 2 true ∧
      ProcessDirectory k₂.pmm (k₂.procs 1).pageDirectory 2 ∧
      UserMapping k₂.pmm.mem (4096 * 2) 0x3FE000 0x500000 false := by
  have hok : (procMapPages emptySpace 1 0x3FE000 0x500000 1 false).bind (fun r =>
      (procMapPages r.1 1 0x3FF000 0x600000 2 true).map fun r' => (r.2, r'.2)) = some (true, true) := by
    decide +kernel
  obtain ⟨⟨k₁, ok⟩, hfirst, hrest⟩ := Option.bind_eq_some_iff.1 hok
  obtain ⟨⟨k₂, ok'⟩, hsecond, heq⟩ := Option.map_eq_some_iff.1 hrest
  obtain ⟨rfl, rfl⟩ := Prod.mk.inj heq
  have hd₀ : ProcessDirectory emptySpace.pmm (emptySpace.procs 1).pageDirectory 2 := emptySpace_directory
  obtain ⟨hmaps, hd⟩ := proc_map_pages_exact hd₀ (by decide) (by decide) (by decide) (by decide)
    hfirst
  obtain ⟨hmaps', hd'⟩ := proc_map_pages_exact hd (by decide) (by decide) (by decide) (by decide) hsecond
  exact ⟨k₁, k₂, hfirst, hsecond, hmaps', hd',
    hmaps'.kept 0x3FE000 (by decide) (Or.inl (by decide)) _ _ (hmaps.mapped 0 (by decide))⟩

end Loop

end BrownieOS.Process
