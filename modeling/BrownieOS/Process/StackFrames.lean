import BrownieOS.Mm.FrameSearch
import BrownieOS.Process.Space

/-!
# The frames a new process takes

Which frames `create_proc` takes, and whether it gets them, depends on the frame bitmap
alone: two for the directory, those of the stack, and one for each table that the stack's
pages below 3 GiB enter. `spaceFrames` is that account, and the call follows it.
-/
namespace BrownieOS.Process

open BrownieOS.Lib BrownieOS.Lib.Word32 BrownieOS.Mm

/-- The tables that the pages from `k` on take, `n` of them left. -/
def stackTables (virt : Nat) : Nat → Nat → FrameMap → Option (FrameMap × Bool)
  | _, 0, framemap => some (framemap, true)
  | k, n + 1, framemap =>
    if pageDirIdx (pageVirt virt k) < kernStartTbl ∧ (k = 0 ∨ pageTblIdx (pageVirt virt k) = 0) then do
      let new ← allocPages framemap pmmFlagsDefault 1
      if new.1 = 0 then return (new.2, false)
      else stackTables virt (k + 1) n new.2
    else stackTables virt (k + 1) n framemap

/-- The frames of a whole address space, and whether the directory and the tables got theirs. -/
def spaceFrames (framemap : FrameMap) (stackSize : Nat) : Option (FrameMap × Bool × Bool) := do
  let dir ← allocPages framemap pmmFlagsDefault 2
  let stack ← allocPages dir.2 pmmFlagsHighmem (stackPages stackSize)
  let tables ← stackTables (stackBottomAl stackSize) 0 (stackPages stackSize) stack.2
  return (tables.1, dir.1 != 0, tables.2)

section Tables

variable {image : KernelImage} {s : Pmm} {dir D stackSize k n : Nat} {P : Nat → Prop}

/-- The page with `n` pages left counts down from 3 GiB; above 3 GiB of them it has wrapped. -/
theorem stack_virt (hk : k + (n + 1) = stackPages stackSize) :
    pageVirt (stackBottomAl stackSize) k =
      if n < 0xC0000 then (0xBFFFF - n) * 4096 else (0x1BFFFF - n) * 4096 := by
  have htop : stackTopAl = 0xC0000000 := by decide
  have hb : stackBottomAl stackSize < 4294967296 ∧ stackBottomAl stackSize % 4096 = 0 := by
    have := wsub_lt procStackTop stackSize
    unfold stackBottomAl
    omega
  unfold stackPages at hk
  rw [htop] at hk
  simp only [pageVirt, wadd, wmul, wsub, pageSize] at hk ⊢
  split
  · omega
  · omega

theorem stackPages_lt (stackSize : Nat) : stackPages stackSize < 0x100000 := by
  have := wsub_lt stackTopAl (stackBottomAl stackSize)
  unfold stackPages
  simp only [pageSize]
  omega

/-- Which of the entries below 3 GiB are there when page `k` is next, with `n` left: that of
the page before it. -/
def TablesSoFar (m : Mem) (D k n : Nat) : Prop :=
  ∀ r, r < n → r < 0xC0000 → ((PageDirEntry.decode (m.word D ((0xBFFFF - r) / 1024))).present = true ↔
    0 < k ∧ n < 0xC0000 ∧ (0xBFFFF - r) / 1024 = (0xBFFFF - n) / 1024)

theorem pageTblIdx_eq (f : Nat) : pageTblIdx (f * 4096) = f % 1024 := by
  simp only [pageTblIdx]
  omega

theorem pageDirIdx_eq (f : Nat) : pageDirIdx (f * 4096) = f / 1024 := by
  simp only [pageDirIdx]
  omega

/-- A stack that fits one table takes no other after its first page. -/
theorem stackTables_rest {framemap : FrameMap} (hk : k + n = stackPages stackSize) (hk' : k ≠ 0)
    (hlt : stackPages stackSize ≤ 1024) :
    stackTables (stackBottomAl stackSize) k n framemap = some (framemap, true) := by
  induction n generalizing k with
  | zero => rfl
  | succ n ih =>
    have hidx : pageTblIdx (pageVirt (stackBottomAl stackSize) k) ≠ 0 := by
      rw [stack_virt hk, if_pos (by omega), pageTblIdx_eq]
      omega
    rw [stackTables, if_neg fun h => h.2.elim hk' hidx]
    exact ih (by omega) (by omega)

/-- The frames of an address space whose stack fits one table. -/
theorem spaceFrames_taken {framemap fm₁ fm₂ fm₃ : FrameMap} {base phys table : Nat}
    (hdir : allocPages framemap pmmFlagsDefault 2 = some (base, fm₁))
    (hstack : allocPages fm₁ pmmFlagsHighmem n = some (phys, fm₂))
    (htable : allocPages fm₂ pmmFlagsDefault 1 = some (table, fm₃)) (hbase : base ≠ 0) (ht : table ≠ 0)
    (hpages : stackPages stackSize = n) (hn : 1 ≤ n) (hn' : n ≤ 1024) :
    spaceFrames framemap stackSize = some (fm₃, true, true) := by
  obtain ⟨r, rfl⟩ : ∃ r, n = r + 1 := ⟨n - 1, by omega⟩
  have hidx : pageDirIdx (pageVirt (stackBottomAl stackSize) 0) < kernStartTbl := by
    rw [@stack_virt _ 0 r (by omega), if_pos (by omega), pageDirIdx_eq]
    simp only [kernStartTbl]
    omega
  have htables : stackTables (stackBottomAl stackSize) 0 (r + 1) fm₂ = some (fm₃, true) := by
    rw [stackTables, if_pos ⟨hidx, Or.inl rfl⟩, htable, Option.bind_eq_bind, Option.bind_some, if_neg ht]
    exact stackTables_rest (by omega) (by decide) (by omega)
  have hne : (base != 0) = true := bne_iff_ne.2 hbase
  rw [spaceFrames, hdir, Option.bind_eq_bind, Option.bind_some, hpages, hstack, Option.bind_some,
    htables, Option.bind_eq_bind, Option.bind_some, hne]
  rfl

/-- Where both zones are used from the bottom up, it takes the next three frames of lowmem, the
first two for its directory, and the stack's pages from highmem. -/
theorem spaceFrames_usedTo {framemap : FrameMap} {lo hi : Nat} (h : UsedTo framemap lo hi)
    (hlo : 1 ≤ lo) (hlo' : lo + 3 ≤ 0x38000) (hhi : 0x38000 ≤ hi) (hhi' : hi + n ≤ nFrames)
    (hpages : stackPages stackSize = n) (hn : 1 ≤ n) (hn' : n ≤ 1024) :
    ∃ fm fm', allocPages framemap pmmFlagsDefault 2 = some (4096 * lo, fm) ∧
      spaceFrames framemap stackSize = some (fm', true, true) ∧ UsedTo fm' (lo + 3) (hi + n) := by
  obtain ⟨fm₁, hdir, h₁⟩ := h.default hlo (show 1 ≤ 2 by decide) (by omega)
  obtain ⟨fm₂, hstack, h₂⟩ := h₁.highmem (by omega) (by omega) hhi hn hhi'
  obtain ⟨fm₃, htable, h₃⟩ := h₂.default (by omega) (Nat.le_refl 1) (by omega)
  exact ⟨fm₁, fm₃, hdir, spaceFrames_taken hdir hstack htable (by omega) (by omega) hpages hn hn', h₃⟩

/-- From a page on that is not the first, or lies above 3 GiB, the tables are those that begin. -/
theorem stackTables_usedTo {framemap : FrameMap} {lo hi : Nat} (h : UsedTo framemap lo hi) (hlo : 1 ≤ lo)
    (hk : k + n = stackPages stackSize) (hk' : k ≠ 0 ∨ 0xC0000 < n)
    (hroom : lo + min n 0xC0000 / 1024 ≤ 0x38000) :
    ∃ fm, stackTables (stackBottomAl stackSize) k n framemap = some (fm, true) ∧
      UsedTo fm (lo + min n 0xC0000 / 1024) hi := by
  induction n generalizing k lo framemap with
  | zero => exact ⟨framemap, rfl, h⟩
  | succ n ih =>
    have hlt := stackPages_lt stackSize
    have hpage := stack_virt hk
    by_cases hnew : n < 0xC0000 ∧ n % 1024 = 1023
    · -- the page is the first of its table
      have hneed : pageDirIdx (pageVirt (stackBottomAl stackSize) k) < kernStartTbl ∧
          pageTblIdx (pageVirt (stackBottomAl stackSize) k) = 0 := by
        rw [hpage, if_pos hnew.1, pageDirIdx_eq, pageTblIdx_eq]
        simp only [kernStartTbl]
        omega
      obtain ⟨fm₁, halloc, h₁⟩ := h.default hlo (Nat.le_refl 1) (by omega)
      obtain ⟨fm, hrest, hused⟩ := @ih (k + 1) fm₁ (lo + 1) h₁ (by omega) (by omega) (Or.inl (by omega)) (by omega)
      refine ⟨fm, ?_, ?_⟩
      · rw [stackTables, if_pos ⟨hneed.1, Or.inr hneed.2⟩, halloc, Option.bind_eq_bind, Option.bind_some,
          if_neg (show ¬ 4096 * lo = 0 by omega)]
        exact hrest
      · rw [show lo + min (n + 1) 0xC0000 / 1024 = lo + 1 + min n 0xC0000 / 1024 by omega]
        exact hused
    · have hnone : ¬ (pageDirIdx (pageVirt (stackBottomAl stackSize) k) < kernStartTbl ∧
          (k = 0 ∨ pageTblIdx (pageVirt (stackBottomAl stackSize) k) = 0)) := by
        rw [hpage]
        simp only [kernStartTbl]
        split
        · rw [pageDirIdx_eq, pageTblIdx_eq]
          omega
        · rw [pageDirIdx_eq]
          omega
      obtain ⟨fm, hrest, hused⟩ := @ih (k + 1) framemap lo h hlo (by omega) (Or.inl (by omega)) (by omega)
      refine ⟨fm, ?_, ?_⟩
      · rw [stackTables, if_neg hnone]
        exact hrest
      · rw [show min (n + 1) 0xC0000 / 1024 = min n 0xC0000 / 1024 by omega]
        exact hused

/-- An address space whose stack fills all below 3 GiB and goes on above it. -/
theorem spaceFrames_wide {framemap : FrameMap} {lo hi : Nat} (h : UsedTo framemap lo hi) (hlo : 1 ≤ lo)
    (hlo' : lo + 770 ≤ 0x38000) (hhi : 0x38000 ≤ hi) (hhi' : hi + n ≤ nFrames)
    (hpages : stackPages stackSize = n) (hn : 0xC0000 < n) :
    ∃ fm fm', allocPages framemap pmmFlagsDefault 2 = some (4096 * lo, fm) ∧
      spaceFrames framemap stackSize = some (fm', true, true) ∧ UsedTo fm' (lo + 770) (hi + n) := by
  obtain ⟨fm₁, hdir, h₁⟩ := h.default hlo (show 1 ≤ 2 by decide) (by omega)
  obtain ⟨fm₂, hstack, h₂⟩ := h₁.highmem (by omega) (by omega) hhi (by omega) hhi'
  obtain ⟨fm₃, htables, h₃⟩ := @stackTables_usedTo stackSize 0 n _ _ _ h₂ (by omega) (by omega) (Or.inr hn) (by omega)
  have hne : (4096 * lo != 0) = true := bne_iff_ne.2 (by omega)
  have hlast : lo + 2 + min n 0xC0000 / 1024 = lo + 770 := by omega
  rw [hlast] at h₃
  refine ⟨fm₁, fm₃, hdir, ?_, h₃⟩
  rw [spaceFrames, hdir, Option.bind_eq_bind, Option.bind_some, hpages, hstack, Option.bind_some, htables,
    Option.bind_eq_bind, Option.bind_some, hne]
  rfl

/-- A turn of the stack's loop leaves the tables so far with the page's own added. -/
theorem TablesSoFar.turn {s' : Pmm} {ok : Bool} {j phys : Nat} {writable : Bool}
    (h : TablesSoFar s.mem D k (n + 1)) (hk : k + (n + 1) = stackPages stackSize)
    (ht : PageTurn D (pageDirIdx (pageVirt (stackBottomAl stackSize) k)) j phys writable P s s' ok)
    (hok : ok = true) : TablesSoFar s'.mem D (k + 1) n := by
  intro r hr hr'
  have hlt := stackPages_lt stackSize
  have hidx : pageDirIdx (pageVirt (stackBottomAl stackSize) k) =
      if n < 0xC0000 then (0xBFFFF - n) / 1024 else (0x1BFFFF - n) / 1024 := by
    rw [stack_virt hk]
    split
    · exact pageDirIdx_eq _
    · exact pageDirIdx_eq _
  by_cases hown : (0xBFFFF - r) / 1024 = pageDirIdx (pageVirt (stackBottomAl stackSize) k)
  · -- the entry of this very page
    have hn : n < 0xC0000 := by
      by_contra hge
      rw [hidx, if_neg hge] at hown
      omega
    rw [hidx, if_pos hn] at hown
    refine iff_of_true ?_ ⟨by omega, hn, hown⟩
    rw [hidx, if_pos hn, ← hown] at ht
    cases ht with
    | noTable => cases hok
    | newTable _ _ _ _ hset _ _ =>
      rw [hset.entry, if_pos rfl, decode_tableWord]
    | hasTable hp _ _ _ _ _ hset _ _ =>
      rw [hset.entry, if_neg Bool.false_ne_true, decode_sharedWord]
      exact hp
  · rw [(ht.entries (by omega) hown).1, h r (by omega) hr']
    rw [hidx] at hown
    refine iff_of_false (fun hbefore => ?_) (fun hafter => hown ?_)
    · obtain ⟨-, hn, he⟩ := hbefore
      rw [if_pos (by omega)] at hown
      omega
    · rw [if_pos hafter.2.1]
      exact hafter.2.2

/-- A page takes a table exactly where its entry is not there. -/
theorem takes_table_iff
    (hkern : ∀ i, 768 ≤ i → i < 1024 → (PageDirEntry.decode (s.mem.word D i)).present = true)
    (hk : k + (n + 1) = stackPages stackSize) (ht : TablesSoFar s.mem D k (n + 1)) :
    (pageDirIdx (pageVirt (stackBottomAl stackSize) k) < kernStartTbl ∧
        (k = 0 ∨ pageTblIdx (pageVirt (stackBottomAl stackSize) k) = 0)) ↔
      (PageDirEntry.decode (s.mem.word D
        (pageDirIdx (pageVirt (stackBottomAl stackSize) k)))).present = false := by
  have hlt := stackPages_lt stackSize
  simp only [kernStartTbl]
  rw [stack_virt hk]
  by_cases hn : n < 0xC0000
  · rw [if_pos hn, pageDirIdx_eq, pageTblIdx_eq, ← Bool.not_eq_true, ht n (by omega) hn]
    omega
  · rw [if_neg hn, pageDirIdx_eq, hkern _ (by omega) (by omega)]
    exact iff_of_false (by omega) nofun

theorem PageTurn.kernelEntries {s' : Pmm} {ok : Bool} {i j phys : Nat} {writable : Bool}
    (ht : PageTurn D i j phys writable P s s' ok)
    (hkern : ∀ l, 768 ≤ l → l < 1024 → (PageDirEntry.decode (s.mem.word D l)).present = true) :
    ∀ l, 768 ≤ l → l < 1024 → (PageDirEntry.decode (s'.mem.word D l)).present = true := by
  intro l hl hl'
  by_cases he : l = i
  · subst he
    cases ht with
    | noTable _ _ hmem _ _ _ =>
      rw [hmem]
      exact hkern l hl hl'
    | newTable _ _ _ _ hset _ _ => rw [hset.entry, if_pos rfl, decode_tableWord]
    | hasTable hp _ _ _ _ _ hset _ _ =>
      rw [hset.entry, if_neg Bool.false_ne_true, decode_sharedWord]
      exact hp
  · rw [(ht.entries hl' he).1]
    exact hkern l hl hl'

/-- The loop takes the frames of the account. -/
theorem procMapLoop_tables {phys : Nat} (hdir : kv2p dir = 4096 * D)
    (ho : OwnDirectory s D (fun _ => True) P)
    (hkern : ∀ i, 768 ≤ i → i < 1024 → (PageDirEntry.decode (s.mem.word D i)).present = true)
    (hk : k + n = stackPages stackSize) (ht : TablesSoFar s.mem D k n) :
    (procMapLoop dir (stackBottomAl stackSize) phys true k n s).map
        (fun r => (r.1.framemap, r.2, r.1.failed)) =
      (stackTables (stackBottomAl stackSize) k n s.framemap).map
        fun r => (r.1, r.2, s.failed || !r.2) := by
  induction n generalizing k s with
  | zero => simp [procMapLoop, stackTables]
  | succ n ih =>
    have hneed := takes_table_iff hkern hk ht
    rw [procMapLoop, stackTables, ← pageVirt, ← pageVirt]
    cases hpage : procMapPage dir (pageVirt (stackBottomAl stackSize) k) (pageVirt phys k) true s with
    | none =>
      obtain ⟨habsent, hnone⟩ := procMapPage_none hdir hpage
      rw [if_pos (hneed.2 habsent), hnone]
      rfl
    | some result =>
      obtain ⟨s', ok⟩ := result
      have hturn := procMapPage_turn hdir ho (pageVirt_lt _ k) trivial hpage
      have hkern' := hturn.kernelEntries hkern
      have hown' := ho.turn hturn
      simp only [Option.bind_eq_bind, Option.bind_some]
      cases ok with
      | false =>
        rw [if_pos rfl]
        cases hturn with
        | noTable habsent _ _ _ halloc hfailed =>
          rw [if_pos (hneed.2 habsent), halloc]
          simp [hfailed]
      | true =>
        rw [if_neg (by decide)]
        have hnext := ih hown' hkern' (by omega) (ht.turn hk hturn rfl)
        rw [hnext]
        cases hturn with
        | newTable habsent _ hnew _ _ halloc hfailed =>
          have hpos := hnew.positive
          rw [if_pos (hneed.2 habsent), halloc, hfailed]
          simp only [Option.bind_some]
          rw [if_neg (by omega)]
        | hasTable hp _ _ _ _ _ _ hframes hfailed =>
          rw [if_neg (fun hn => by rw [hneed.1 hn] at hp; cases hp), hframes, hfailed]

/-- A new directory has no table below 3 GiB, and the kernel's above. -/
theorem NewDirectory.tablesSoFar {s' : Pmm} (hn : NewDirectory image D s s') :
    TablesSoFar s'.mem D 0 n := by
  intro r _ hr
  rw [hn.entries _ (by omega), if_neg (by omega)]
  exact iff_of_false (by decide) fun h => absurd h.1 (Nat.lt_irrefl 0)

theorem NewDirectory.kernelPresent {s' : Pmm} (hk : KernelSpace image s)
    (hn : NewDirectory image D s s') :
    ∀ i, 768 ≤ i → i < 1024 → (PageDirEntry.decode (s'.mem.word D i)).present = true := by
  intro i hi hi'
  have hp := hk.directory.present i hi hi'
  rw [getDirEntry_eq image.kv2p_dir] at hp
  rw [hn.entries i hi', if_pos hi]
  exact hp

/-- Mapping the stack of a new directory follows the account. -/
theorem mapStack_tables {s' : Pmm} (phys : Nat) (hk : KernelSpace image s) (hl : image.Linked)
    (hdir : kv2p dir = 4096 * D) (hn : NewDirectory image D s s') (hpages : stackPages stackSize ≠ 0) :
    (mapStack dir stackSize phys s').map (fun r => (r.1.framemap, r.2, r.1.failed)) =
      (stackTables (stackBottomAl stackSize) 0 (stackPages stackSize) s'.framemap).map
        fun r => (r.1, r.2, s'.failed || !r.2) := by
  unfold mapStack
  rw [if_neg hpages]
  exact procMapLoop_tables hdir (hn.own hk hl) (hn.kernelPresent hk) (Nat.zero_add _) hn.tablesSoFar

/-- The part that makes the stack returns where the search for its frames and the mapping do. -/
theorem createProcStack_isSome {k : Kernel} {proc procIdx entry phys : Nat} {s : Pmm} (hp : proc ≠ 0)
    (hdir : (k.procs proc).pageDirectory ≠ 0) (hpages : stackPages stackSize ≠ 0)
    (hstack : k.pmm.allocPages pmmFlagsHighmem (stackPages stackSize) = some (s, phys))
    (hmap : (mapStack (k.procs proc).pageDirectory stackSize phys s).isSome = true) :
    (createProcStack k proc procIdx entry stackSize).isSome = true := by
  obtain ⟨⟨s', ok⟩, hmapped⟩ := Option.isSome_iff_exists.1 hmap
  unfold mapStack at hmapped
  rw [if_neg hpages] at hmapped
  unfold createProcStack
  simp only [hstack, Option.bind_eq_bind, Option.bind_some]
  split
  · rfl
  · unfold procMapPages
    rw [Kernel.setProc_procs_self, if_neg (not_or.2 ⟨hp, not_or.2 ⟨hdir, hpages⟩⟩)]
    simp only [Kernel.setProc, hmapped, Option.bind_eq_bind, Option.bind_some]
    cases ok with
    | false => rfl
    | true => rfl

/-- The part that makes the directory, once its frames are there and the clone returns. -/
theorem createProcDirectory_eq {k : Kernel} {proc procIdx entry base : Nat} {s₁ s₂ : Pmm}
    (hdir : k.pmm.allocPages pmmFlagsDefault 2 = some (s₁, base)) (hne : kp2v base ≠ 0)
    (hclone : clonePageDir image.dir k.cr3 image.dir (kp2v base)
      { s₁ with mem := s₁.mem.fill (kv2p (kp2v base)) 8192 0 } = some s₂) :
    createProcDirectory image k proc procIdx entry stackSize =
      createProcStack ({ k with pmm := s₂ }.setProc proc { k.procs proc with
        pageDirectory := kp2v base, cr3 := kv2p (kp2v base) }) proc procIdx entry stackSize := by
  unfold createProcDirectory
  rw [hdir, Option.bind_eq_bind, Option.bind_some]
  dsimp only
  rw [if_neg hne]
  unfold Kernel.setProc
  dsimp only
  rw [hclone, Option.bind_eq_bind, Option.bind_some, Function.update_self, Function.update_idem]

theorem createProcDirectory_isSome {k : Kernel} {proc procIdx entry : Nat}
    (hk : KernelSpace image k.pmm) (hl : image.Linked) (hp : proc ≠ 0)
    (h : (spaceFrames k.pmm.framemap stackSize).isSome = true) :
    (createProcDirectory image k proc procIdx entry stackSize).isSome = true := by
  have h0 := hk.reserved 0 (by decide)
  obtain ⟨r, hr⟩ := Option.isSome_iff_exists.1 h
  unfold spaceFrames at hr
  obtain ⟨⟨base, fm₁⟩, hdir, hr⟩ := Option.bind_eq_some_iff.1 hr
  obtain ⟨⟨phys, fm₂⟩, hstack, hr⟩ := Option.bind_eq_some_iff.1 hr
  obtain ⟨⟨fm₃, ok⟩, htables, -⟩ := Option.bind_eq_some_iff.1 hr
  have hd := Pmm.allocPages_of_eq_some (s := k.pmm) hdir
  have hne := kp2v_dir_ne_zero h0 hd
  obtain ⟨D, m', -, hptr, hclone, hn⟩ := newDirectory_of_clone hk hl hd
  have hs := Pmm.allocPages_of_eq_some
    (s := { k.pmm with framemap := fm₁, failed := k.pmm.failed || base == 0, mem := m' }) hstack
  obtain ⟨-, hpages, -⟩ := Pmm.allocPages_highmem (hn.grows 0 h0) hs
  have hn₂ := hn.alloc h0 hs
  have hmap := mapStack_tables phys hk hl hptr hn₂ (Nat.pos_iff_ne_zero.1 hpages)
  rw [htables] at hmap
  obtain ⟨mapped, hmapped, -⟩ := Option.map_eq_some_iff.1 hmap
  rw [createProcDirectory_eq hd hne hclone]
  refine createProcStack_isSome hp ?_ (Nat.pos_iff_ne_zero.1 hpages) hs ?_
  · rw [Kernel.setProc_procs_self]
    exact hne
  · rw [Kernel.setProc_procs_self, hmapped]
    rfl

/-- What a call that returns has taken. -/
theorem DirectoryOutcome.frames {k k' : Kernel} {proc procIdx entry r : Nat}
    (h : DirectoryOutcome image k proc procIdx entry stackSize k' r)
    (hk : KernelSpace image k.pmm) (hl : image.Linked) :
    ∃ gotDir gotTables, spaceFrames k.pmm.framemap stackSize =
        some (k'.pmm.framemap, gotDir, gotTables) ∧ r = (if gotTables then proc else 0) ∧
      k'.pmm.failed = (k.pmm.failed || !gotDir || !gotTables ||
        gotTables && (Mm.kmalloc k.heap 8192).2 == 0) := by
  have h0 := hk.reserved 0 (by decide)
  have hmapped : ∀ {dirPhys stackPhys s s' ok},
      SpaceBuilt image k.cr3 stackSize k.pmm dirPhys stackPhys s →
      mapStack (kp2v dirPhys) stackSize stackPhys s = some (s', ok) →
      spaceFrames k.pmm.framemap stackSize = some (s'.framemap, dirPhys != 0, ok) ∧
        s'.failed = (k.pmm.failed || !(dirPhys != 0) || !ok) := by
    intro dirPhys stackPhys s s' ok hbuilt hmap
    obtain ⟨D, -, hptr, hn⟩ := newDirectory_of_built hk hl hbuilt
    have htables := mapStack_tables stackPhys hk hl hptr hn (hbuilt.stack h0).2
    rw [hmap] at htables
    obtain ⟨⟨fm, ok'⟩, htaken, heq⟩ := Option.map_eq_some_iff.1 htables.symm
    simp only [Prod.mk.injEq] at heq
    obtain ⟨rfl, rfl, hfailed⟩ := heq
    have hne := (hbuilt.stack h0).1
    obtain ⟨s₁, s₂, hdir, hclone, hstack⟩ := hbuilt
    obtain ⟨-, m', -, -, hm', -⟩ := newDirectory_of_clone hk hl hdir
    rw [hm'] at hclone
    obtain rfl := Option.some.inj hclone
    obtain ⟨ha, hs₁⟩ := Pmm.allocPages_eq_some hdir
    obtain ⟨ha', hs⟩ := Pmm.allocPages_eq_some hstack
    refine ⟨?_, ?_⟩
    · unfold spaceFrames
      simp only at ha'
      rw [ha, Option.bind_eq_bind, Option.bind_some, ha', Option.bind_eq_bind, Option.bind_some,
        htaken]
      rfl
    · have hz : (stackPhys == 0) = false := by simpa using hne
      rw [← hfailed, hs, hs₁]
      simp [hz, bne]
  cases h with
  | noStack hbuilt => exact absurd rfl (hbuilt.stack h0).1
  | noTable hbuilt hz hmap =>
    obtain ⟨hframes, hfailed⟩ := hmapped hbuilt hmap
    refine ⟨_, _, hframes, rfl, ?_⟩
    simp [Kernel.withSpace, hfailed]
  | done hbuilt hz hmap =>
    obtain ⟨hframes, hfailed⟩ := hmapped hbuilt hmap
    rw [createProcFinish_eq]
    refine ⟨_, _, hframes, rfl, ?_⟩
    simp [Kernel.withSpace, Kernel.kmalloc, hfailed]

/-- A call with a slot and a block returns where the account does, and with that result. -/
theorem createProc_returns {k : Kernel} {entry execSize heapSize i proc : Nat}
    {priority : ProcPriority} {framemap : FrameMap} {gotDir gotTables : Bool}
    (hslot : findEmptySlot k 1 (maxProc - 1) = some i)
    (hblock : ((k.claimSlot i).kmalloc sizeofProc).2 = proc) (hne : proc ≠ 0)
    (hk : KernelSpace image k.pmm) (hl : image.Linked)
    (h : spaceFrames k.pmm.framemap stackSize = some (framemap, gotDir, gotTables)) :
    ∃ k', createProc image k entry execSize stackSize heapSize priority =
      some (k', if gotTables then proc else 0) := by
  cases hpair : (k.claimSlot i).kmalloc sizeofProc with
  | mk k₀ p =>
  rw [hpair] at hblock
  obtain rfl : p = proc := hblock
  have hk₀ : k₀ = ((k.claimSlot i).kmalloc sizeofProc).1 := by rw [hpair]
  obtain ⟨k₁, hk₁⟩ : ∃ k₁, k₀.takePid p priority = k₁ := ⟨_, rfl⟩
  have hmem : k₁.pmm.mem = k.pmm.mem := by
    rw [← hk₁, Kernel.takePid_pmm, hk₀, Kernel.kmalloc_mem, Kernel.claimSlot_pmm]
  have hframemap : k₁.pmm.framemap = k.pmm.framemap := by
    rw [← hk₁, Kernel.takePid_pmm, hk₀, Kernel.kmalloc_framemap, Kernel.claimSlot_pmm]
  have hspace : KernelSpace image k₁.pmm := by
    refine hk.of_sameFrame (fun f hf => by rw [hframemap]; exact hf) ?_ ?_
    · rw [hmem]
      exact .refl _ _
    · rw [hmem]
      exact .refl _ _
  rw [← hframemap] at h
  have hsome := @createProcDirectory_isSome _ _ _ _ i entry hspace hl hne
    (Option.isSome_iff_exists.2 ⟨_, h⟩)
  obtain ⟨⟨k', r⟩, hk'⟩ := Option.isSome_iff_exists.1 hsome
  have hout := createProcDirectory_cases (hspace.reserved 0 (by decide)) hne hk'
  obtain ⟨gotDir', gotTables', hframes, hr, -⟩ := hout.frames hspace hl
  rw [h] at hframes
  simp only [Option.some.injEq, Prod.mk.injEq] at hframes
  obtain ⟨-, -, rfl⟩ := hframes
  rw [createProc_started hslot hpair hne, hk₁, hk', hr]
  exact ⟨k', rfl⟩

end Tables

end BrownieOS.Process
