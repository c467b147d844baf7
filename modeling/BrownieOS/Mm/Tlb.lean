import BrownieOS.Mm.IdentityWindow

/-!
# Temporary mappings behind a translation cache

The processor may keep every translation it has used since `CR3` was last loaded and
may answer from it. `find_table` and the page loop of `clone_page_dir` map, access and
unmap one address after another with no reload in between, and `kmap` hands out the
same slot each time.
-/
namespace BrownieOS.Mm

open BrownieOS.Lib BrownieOS.Lib.Word32

/-- Memory, and the translations used since `CR3` was loaded: page number and frame. -/
structure TlbState where
  mem : Mem
  used : List (Nat × Frame)

/-- One access: the frame it reaches, or a page fault. A kept translation may answer
whatever the tables say now. -/
inductive Access (cr3 : Nat) : TlbState → Nat → Option Frame → TlbState → Prop
  | kept {s : TlbState} {va : Nat} {f : Frame} : (va / 4096, f) ∈ s.used →
      Access cr3 s va (some f) s
  | walked {s : TlbState} {va : Nat} {found : PageDirEntry × Page} :
      walk s.mem cr3 va = some found →
      Access cr3 s va (some found.2.frame) { s with used := (va / 4096, found.2.frame) :: s.used }
  | fault {s : TlbState} {va : Nat} : walk s.mem cr3 va = none → Access cr3 s va none s

/-- Accesses one after another, up to a page fault. -/
inductive Accesses (cr3 : Nat) : TlbState → List Nat → List (Option Frame) → TlbState → Prop
  | nil {s : TlbState} : Accesses cr3 s [] [] s
  | cons {s t u : TlbState} {va : Nat} {f : Frame} {vas : List Nat} {out : List (Option Frame)} :
      Access cr3 s va (some f) t → Accesses cr3 t vas out u →
      Accesses cr3 s (va :: vas) (some f :: out) u
  | fault {s t : TlbState} {va : Nat} {vas : List Nat} : Access cr3 s va none t →
      Accesses cr3 s (va :: vas) [none] t

inductive MapLoop where
  | findTable
  | clonePages

/-- The bytes of the mapped page one turn touches: `strncmp` stops at the first of the
four signature bytes that differs, `memcpy` fills the page. -/
def MapLoop.offsets : MapLoop → List Nat → Prop
  | .findTable, os => ∃ n, 1 ≤ n ∧ n ≤ 4 ∧ os = List.range n
  | .clonePages, os => os = List.range pageSize

/-- The addresses a loop maps: highmem, with what it touches inside one page. -/
def MapLoop.Takes : MapLoop → Nat → Prop
  | .findTable, p => kernIdentityPhysEnd ≤ p ∧ p < 4294967296 ∧ p % 4096 + 4 ≤ 4096
  | .clonePages, p => kernIdentityPhysEnd ≤ p ∧ p < 4294967296 ∧ p % 4096 = 0

/-- A run of the loop over physical addresses, cut off at the head of any turn (as by
the return in `find_table`) or by a page fault: which address reached which frame. -/
inductive MapLoop.Runs (loop : MapLoop) (image : KernelImage) (cr3 : Nat) :
    TlbState → List Nat → List (Nat × Option Frame) → Prop
  | here {s : TlbState} {ps : List Nat} : Runs loop image cr3 s ps []
  | turn {s t : TlbState} {p : Nat} {ps os : List Nat} {out : List (Option Frame)}
      {rest : List (Nat × Option Frame)} : loop.offsets os →
      Accesses cr3 ⟨(kmap image.dir s.mem p).1, s.used⟩
        (os.map fun o => wadd (kmap image.dir s.mem p).2 o) out t →
      none ∉ out →
      Runs loop image cr3 ⟨kunmap image.dir t.mem (kmap image.dir s.mem p).2, t.used⟩ ps rest →
      Runs loop image cr3 s (p :: ps) (out.map (fun f => (p, f)) ++ rest)
  | fault {s t : TlbState} {p : Nat} {ps os : List Nat} {out : List (Option Frame)} :
      loop.offsets os →
      Accesses cr3 ⟨(kmap image.dir s.mem p).1, s.used⟩
        (os.map fun o => wadd (kmap image.dir s.mem p).2 o) out t →
      none ∈ out →
      Runs loop image cr3 s (p :: ps) (out.map fun f => (p, f))

/-- Every access of every run reaches the frame of the address it was made for. -/
def MapLoop.ReachesOwn (loop : MapLoop) (image : KernelImage) (cr3 : Nat) (s : TlbState)
    (ps : List Nat) : Prop :=
  ∀ trace, loop.Runs image cr3 s ps trace → ∀ a ∈ trace, a.2 = some (frameOf a.1)

/-- There is a slot to map with, all the addresses lie in one frame, and no translation
kept for the slot's page names another one. -/
def OneFrame (image : KernelImage) (s : TlbState) (ps : List Nat) : Prop :=
  ps = [] ∨ ∃ i j, findFreeSlot s.mem image.dir kernHighmemStartTbl 32 = some (i, j) ∧
    (∀ p ∈ ps, ∀ q ∈ ps, frameOf p = frameOf q) ∧
    ∀ f, (i * 1024 + j, f) ∈ s.used → ∀ p ∈ ps, f = frameOf p

/-- Nothing is mapped or kept at the NULL page. -/
def NullUnmapped (cr3 : Nat) (s : TlbState) : Prop :=
  ∀ va < 4096, walk s.mem cr3 va = none

namespace MapLoop

variable {loop : MapLoop} {image : KernelImage} {cr3 : Nat} {s t : TlbState} {ps os vas : List Nat}
  {out : List (Option Frame)} {p i j n : Nat} {f : Frame}

theorem range_head {n : Nat} (h : 0 < n) : ∃ rest, List.range n = 0 :: rest := by
  obtain ⟨k, rfl⟩ : ∃ k, n = k + 1 := ⟨n - 1, by omega⟩
  exact ⟨_, List.range_succ_eq_map⟩

/-- A turn touches the mapped address itself, and only its page. -/
theorem offsets_spec (hos : loop.offsets os) (hp : loop.Takes p) :
    (∃ rest, os = 0 :: rest) ∧ ∀ o ∈ os, p % 4096 + o < 4096 := by
  cases loop with
  | findTable =>
    obtain ⟨n, h₁, h₄, rfl⟩ := hos
    obtain ⟨-, -, hfit⟩ := hp
    refine ⟨range_head h₁, fun o ho => ?_⟩
    have := List.mem_range.mp ho
    omega
  | clonePages =>
    have hall : os = List.range pageSize := hos
    obtain ⟨-, -, hfit⟩ := hp
    rw [hall]
    refine ⟨range_head (by decide), fun o ho => ?_⟩
    have := List.mem_range.mp ho
    simp only [pageSize] at this
    omega

theorem offsets_exist (loop : MapLoop) : ∃ os, loop.offsets os := by
  cases loop with
  | findTable => exact ⟨_, 1, by decide, by decide, rfl⟩
  | clonePages => exact ⟨_, rfl⟩

theorem Takes.high (hp : loop.Takes p) : kernIdentityPhysEnd ≤ p ∧ p < 4294967296 := by
  cases loop with
  | findTable => exact ⟨hp.1, hp.2.1⟩
  | clonePages => exact ⟨hp.1, hp.2.1⟩

/-! ## One turn -/

/-- The addresses a turn touches lie in the page of the slot. -/
theorem touched_page (hi : i < 1024) (hj : j < 1024) (hfit : ∀ o ∈ os, p % 4096 + o < 4096) :
    ∀ va ∈ os.map (fun o => wadd (pageIdxVaddr i j (p % 4096)) o), va / 4096 = i * 1024 + j := by
  intro va hva
  obtain ⟨o, ho, rfl⟩ := List.mem_map.mp hva
  have hadd := pageIdxVaddr_eq hi hj (Nat.mod_lt p (show 0 < 4096 by decide))
  have := hfit o ho
  rw [hadd, wadd_of_lt (by omega)]
  omega

/-- When every translation that can answer names `f`, every access reaches `f`, and the
translations kept afterwards still name it. -/
theorem accesses_reach (h : Accesses cr3 s vas out t) (hpage : ∀ va ∈ vas, va / 4096 = n)
    (hkept : ∀ g, (n, g) ∈ s.used → g = f)
    (hwalk : ∀ va ∈ vas, ∃ e pg, walk s.mem cr3 va = some (e, pg) ∧ pg.frame = f) :
    (∀ o ∈ out, o = some f) ∧ t.mem = s.mem ∧ ∀ g, (n, g) ∈ t.used → g = f := by
  induction h with
  | nil => exact ⟨by simp, rfl, hkept⟩
  | @cons s t u va g vas out hacc _ ih =>
    have hva := hpage va List.mem_cons_self
    obtain ⟨e, pg, hw, hpg⟩ := hwalk va List.mem_cons_self
    have hstep : g = f ∧ t.mem = s.mem ∧ ∀ g, (n, g) ∈ t.used → g = f := by
      cases hacc with
      | kept hmem => exact ⟨hkept g (hva ▸ hmem), rfl, hkept⟩
      | walked hfound =>
        rw [hfound] at hw
        obtain rfl := Option.some.inj hw
        refine ⟨hpg, rfl, fun g' hg' => ?_⟩
        rcases List.mem_cons.mp hg' with he | hg'
        · exact (Prod.mk.inj he).2.trans hpg
        · exact hkept g' hg'
    obtain ⟨rfl, hmem, hkept'⟩ := hstep
    obtain ⟨hout, hmem', hused⟩ := ih (fun v hv => hpage v (List.mem_cons_of_mem _ hv)) hkept'
      (fun v hv => by rw [hmem]; exact hwalk v (List.mem_cons_of_mem _ hv))
    refine ⟨fun o ho => ?_, hmem'.trans hmem, hused⟩
    rcases List.mem_cons.mp ho with rfl | ho
    · rfl
    · exact hout o ho
  | @fault s t va vas hacc =>
    obtain ⟨e, pg, hw, -⟩ := hwalk va List.mem_cons_self
    cases hacc with
    | fault hnone =>
      rw [hnone] at hw
      simp at hw

/-- A kept translation may answer every access to its page. -/
theorem accesses_kept (hmem : (n, f) ∈ s.used) : ∀ {vas : List Nat}, (∀ va ∈ vas, va / 4096 = n) →
    Accesses cr3 s vas (vas.map fun _ => some f) s := by
  intro vas
  induction vas with
  | nil => exact fun _ => .nil
  | cons va vas ih =>
    intro hpage
    have hva := hpage va List.mem_cons_self
    exact .cons (.kept (hva ▸ hmem)) (ih fun v hv => hpage v (List.mem_cons_of_mem _ hv))

/-- What `kmap` does in a loop over highmem addresses, and what `kunmap` undoes. -/
theorem slot_turn (hk : KernelDirectory s.mem image)
    (hslot : findFreeSlot s.mem image.dir kernHighmemStartTbl 32 = some (i, j))
    (hp : kernIdentityPhysEnd ≤ p) : 992 ≤ i ∧ i < 1024 ∧ j < 1024 ∧
      kmap image.dir s.mem p =
        (s.mem.set32 (image.slot i j) (mappedWord p), pageIdxVaddr i j (p % 4096)) ∧
      kunmap image.dir (s.mem.set32 (image.slot i j) (mappedWord p))
        (pageIdxVaddr i j (p % 4096)) = s.mem := by
  have hslot' := hslot
  simp only [kernHighmemStartTbl] at hslot'
  obtain ⟨hi₀, hi₁, hj, hz⟩ := findFreeSlot_some _ _ hslot'
  rw [hk.pointers i (by omega) (by omega)] at hz
  have ho := Nat.mod_lt p (show 0 < 4096 by decide)
  have hadd := pageIdxVaddr_eq (i := i) (by omega) hj ho
  obtain ⟨hdi, hti, -⟩ := pageIdxVaddr_idx (i := i) (by omega) hj ho
  have hkmap : kmap image.dir s.mem p =
      (s.mem.set32 (image.slot i j) (mappedWord p), pageIdxVaddr i j (p % 4096)) :=
    kmap_slot hk hslot hp
  refine ⟨hi₀, by omega, hj, hkmap, ?_⟩
  rw [kunmap_eq (hk.set_slot (by omega) (by omega) hj) (by omega) (by omega), hdi, hti,
    Mem.set32_set32_self]
  have hz' : s.mem.get32 (image.slot i j) = 0 := hz
  rw [← hz', Mem.set32_get32_self]

/-! ## Runs -/

/-- Under the condition every run reaches the right frame: the tables are as before at
every loop head, and the slot's page is only ever translated to the one frame. -/
theorem runs_reach {trace : List (Nat × Option Frame)} (h : loop.Runs image cr3 s ps trace)
    (hk : KernelDirectory s.mem image) (hs : SharesKernelHalf s.mem image cr3)
    (hps : ∀ p ∈ ps, loop.Takes p) (hone : ∀ p ∈ ps, frameOf p = f)
    (hslot : findFreeSlot s.mem image.dir kernHighmemStartTbl 32 = some (i, j))
    (hkept : ∀ g, (i * 1024 + j, g) ∈ s.used → g = f) : ∀ a ∈ trace, a.2 = some (frameOf a.1) := by
  have turn : ∀ {s t : TlbState} {p : Nat} {os : List Nat} {out : List (Option Frame)},
      KernelDirectory s.mem image → SharesKernelHalf s.mem image cr3 →
      findFreeSlot s.mem image.dir kernHighmemStartTbl 32 = some (i, j) →
      (∀ g, (i * 1024 + j, g) ∈ s.used → g = f) → loop.Takes p → frameOf p = f →
      loop.offsets os →
      Accesses cr3 ⟨(kmap image.dir s.mem p).1, s.used⟩
        (os.map fun o => wadd (kmap image.dir s.mem p).2 o) out t →
      (∀ o ∈ out, o = some f) ∧ kunmap image.dir t.mem (kmap image.dir s.mem p).2 = s.mem ∧
        ∀ g, (i * 1024 + j, g) ∈ t.used → g = f := by
    intro s t p os out hk hs hslot hkept hp hpf hos hacc
    obtain ⟨hi₀, hi₁, hj, hkmap, hkunmap⟩ := slot_turn hk hslot hp.high.1
    rw [hkmap] at hacc ⊢
    have hpage := touched_page hi₁ hj (offsets_spec hos hp).2
    obtain ⟨hout, hmem, hused⟩ := accesses_reach hacc hpage hkept fun va hva =>
      ⟨_, _, walk_mapped hk hs (by omega) hi₁ hj (hpage va hva), by rw [decode_mappedWord]; exact hpf⟩
    refine ⟨hout, ?_, hused⟩
    rw [hmem]
    exact hkunmap
  induction h with
  | here => simp
  | @turn s t p ps os out rest hos hacc _ _ ih =>
    obtain ⟨hout, hmem, hused⟩ := turn hk hs hslot hkept (hps p List.mem_cons_self)
      (hone p List.mem_cons_self) hos hacc
    intro a ha
    rcases List.mem_append.mp ha with ha | ha
    · obtain ⟨o, ho, rfl⟩ := List.mem_map.mp ha
      rw [hone p List.mem_cons_self]
      exact hout o ho
    · rw [hmem] at ih
      exact ih hk hs (fun q hq => hps q (List.mem_cons_of_mem _ hq))
        (fun q hq => hone q (List.mem_cons_of_mem _ hq)) hslot hused a ha
  | @fault s t p ps os out hos hacc _ =>
    obtain ⟨hout, -, -⟩ := turn hk hs hslot hkept (hps p List.mem_cons_self)
      (hone p List.mem_cons_self) hos hacc
    intro a ha
    obtain ⟨o, ho, rfl⟩ := List.mem_map.mp ha
    rw [hone p List.mem_cons_self]
    exact hout o ho

/-- A translation kept for the slot's page may answer for every address of the list. -/
theorem runs_kept (hk : KernelDirectory s.mem image) (hps : ∀ p ∈ ps, loop.Takes p)
    (hslot : findFreeSlot s.mem image.dir kernHighmemStartTbl 32 = some (i, j))
    (hmem : (i * 1024 + j, f) ∈ s.used) :
    ∃ trace, loop.Runs image cr3 s ps trace ∧ ∀ p ∈ ps, (p, some f) ∈ trace := by
  obtain ⟨os, hos⟩ := loop.offsets_exist
  induction ps with
  | nil => exact ⟨[], .here, by simp⟩
  | cons p ps ih =>
    have hp := hps p List.mem_cons_self
    obtain ⟨trace, hrest, hall⟩ := ih fun q hq => hps q (List.mem_cons_of_mem _ hq)
    obtain ⟨hi₀, hi₁, hj, hkmap, hkunmap⟩ := slot_turn hk hslot hp.high.1
    obtain ⟨⟨tail, htail⟩, hfit⟩ := offsets_spec hos hp
    have hpage := touched_page (p := p) hi₁ hj hfit
    have hacc := @accesses_kept cr3 ⟨s.mem.set32 (image.slot i j) (mappedWord p), s.used⟩
      (i * 1024 + j) f hmem _ hpage
    have hturn := Runs.turn (s := s) (p := p)
      hos (by rw [hkmap]; exact hacc) (by simp) (by rw [hkmap, hkunmap]; exact hrest)
    refine ⟨_, hturn, fun q hq => ?_⟩
    rcases List.mem_cons.mp hq with rfl | hq
    · rw [htail]
      simp
    · exact List.mem_append_right _ (hall q hq)

/-- The first turn may be answered from the tables, and what it used is kept. -/
theorem runs_first (hk : KernelDirectory s.mem image) (hs : SharesKernelHalf s.mem image cr3)
    (hps : ∀ q ∈ p :: ps, loop.Takes q)
    (hslot : findFreeSlot s.mem image.dir kernHighmemStartTbl 32 = some (i, j)) :
    ∃ trace, loop.Runs image cr3 s (p :: ps) trace ∧ ∀ q ∈ ps, (q, some (frameOf p)) ∈ trace := by
  obtain ⟨os, hos⟩ := loop.offsets_exist
  have hp := hps p List.mem_cons_self
  obtain ⟨hi₀, hi₁, hj, hkmap, hkunmap⟩ := slot_turn hk hslot hp.high.1
  obtain ⟨⟨tail, htail⟩, hfit⟩ := offsets_spec hos hp
  have hpage := touched_page (p := p) hi₁ hj hfit
  have hwalk := walk_mapped (p := p) hk hs (by omega) hi₁ hj
    (hpage (wadd (pageIdxVaddr i j (p % 4096)) 0) (by rw [htail]; simp))
  have hframe : (Page.decode (mappedWord p)).frame = frameOf p := by
    rw [decode_mappedWord]
    rfl
  -- the state after the first byte
  obtain ⟨t, ht⟩ : ∃ t : TlbState, t = ⟨s.mem.set32 (image.slot i j) (mappedWord p),
    (i * 1024 + j, frameOf p) :: s.used⟩ := ⟨_, rfl⟩
  have hkept : (i * 1024 + j, frameOf p) ∈ t.used := by
    rw [ht]
    exact List.mem_cons_self
  have hfirst : Access cr3 ⟨s.mem.set32 (image.slot i j) (mappedWord p), s.used⟩
      (wadd (pageIdxVaddr i j (p % 4096)) 0) (some (frameOf p)) t := by
    have h := Access.walked (s := ⟨s.mem.set32 (image.slot i j) (mappedWord p), s.used⟩) hwalk
    rw [hpage _ (by rw [htail]; simp)] at h
    simp only [hframe] at h
    rw [ht]
    exact h
  have htailpage : ∀ va ∈ tail.map (fun o => wadd (pageIdxVaddr i j (p % 4096)) o),
      va / 4096 = i * 1024 + j := by
    intro va hva
    exact hpage va (by rw [htail]; exact List.mem_cons_of_mem _ hva)
  have hacc := Accesses.cons hfirst (accesses_kept hkept htailpage)
  have hmem : kunmap image.dir t.mem (pageIdxVaddr i j (p % 4096)) = s.mem := by
    rw [ht]
    exact hkunmap
  obtain ⟨trace, hrest, hall⟩ := runs_kept (s := ⟨s.mem, t.used⟩) hk
    (fun q hq => hps q (List.mem_cons_of_mem _ hq)) hslot hkept
  have hturn := Runs.turn (s := s) (p := p)
    hos (by rw [hkmap, htail]; exact hacc) (by simp) (by rw [hkmap, hmem]; exact hrest)
  exact ⟨_, hturn, fun q hq => List.mem_append_right _ (hall q hq)⟩

/-- With no slot left `kmap` returns NULL, and touching that faults. -/
theorem runs_null (hnull : NullUnmapped cr3 s) (hp : loop.Takes p)
    (hslot : findFreeSlot s.mem image.dir kernHighmemStartTbl 32 = none) :
    loop.Runs image cr3 s (p :: ps) [(p, none)] := by
  obtain ⟨os, hos⟩ := loop.offsets_exist
  obtain ⟨⟨tail, rfl⟩, -⟩ := offsets_spec hos hp
  have hkmap : kmap image.dir s.mem p = (s.mem, 0) := kmap_full hslot hp.high.1
  have hacc : Accesses cr3 ⟨s.mem, s.used⟩ ((0 :: tail).map fun o => wadd 0 o) [none] s :=
    .fault (.fault (hnull 0 (by decide)))
  exact .fault hos (by rw [hkmap]; exact hacc) (by simp)

end MapLoop

/-- Over any list of highmem addresses, and from any state with the kernel directory in
place, every access of the loop reaches its own frame in every run exactly when there
is a slot and at most one frame for its page. -/
theorem map_loop_reaches_own_iff {loop : MapLoop} {image : KernelImage} {cr3 : Nat} {s : TlbState}
    {ps : List Nat} (hk : KernelDirectory s.mem image) (hs : SharesKernelHalf s.mem image cr3)
    (hnull : NullUnmapped cr3 s) (hps : ∀ p ∈ ps, loop.Takes p) :
    loop.ReachesOwn image cr3 s ps ↔ OneFrame image s ps := by
  constructor
  · intro hall
    cases ps with
    | nil => exact Or.inl rfl
    | cons p ps =>
      cases hslot : findFreeSlot s.mem image.dir kernHighmemStartTbl 32 with
      | none =>
        have hbad := hall _ (MapLoop.runs_null hnull (hps p List.mem_cons_self) hslot) _
          List.mem_cons_self
        simp at hbad
      | some slot =>
        obtain ⟨trace, hrun, hfirst⟩ := MapLoop.runs_first hk hs hps hslot
        have hrest : ∀ q ∈ p :: ps, frameOf q = frameOf p := by
          intro q hq
          rcases List.mem_cons.mp hq with rfl | hq
          · rfl
          · exact (Option.some.inj (hall _ hrun _ (hfirst q hq))).symm
        refine Or.inr ⟨slot.1, slot.2, hslot, fun q hq r hr => ?_, fun f hf q hq => ?_⟩
        · exact (hrest q hq).trans (hrest r hr).symm
        · obtain ⟨trace, hrun, hkept⟩ := MapLoop.runs_kept hk hps hslot hf
          exact Option.some.inj (hall _ hrun _ (hkept q hq))
  · rintro (rfl | ⟨i, j, hslot, hsame, hkept⟩)
    · intro trace hrun
      cases hrun
      simp
    · intro trace hrun
      cases ps with
      | nil =>
        cases hrun
        simp
      | cons p ps =>
        exact MapLoop.runs_reach hrun hk hs hps (fun q hq => hsame q hq p List.mem_cons_self) hslot
          (fun g hg => hkept g hg p List.mem_cons_self)

/-! ## A machine that has just booted -/

/-- What is needed of a directory whose user half and highmem tables are clear. -/
structure FreshDirectory (m : Mem) (image : KernelImage) : Prop where
  directory : KernelDirectory m image
  userHalf : ∀ i < 768, m.get32 (image.dirPaddr + 4 * i) = 0
  highmem : ∀ i, 992 ≤ i → i < 1024 → ∀ j < 1024, m.get32 (image.slot i j) = 0

theorem freshDirectory_setup (image : KernelImage) {m : Mem} (hzero : ∀ a, m.get32 a = 0) :
    FreshDirectory (setupKernelDirectory image m) image := by
  obtain ⟨huser, hhigh⟩ := setupKernelDirectory_kept image m
  constructor
  · exact (setupKernelDirectory_spec image m).1
  · intro i hi
    rw [huser i hi, hzero]
  · intro i h₀ h₁ j hj
    rw [KernelImage.slot, hhigh i h₀ h₁ j hj, hzero]

/-- Writes above the first 4 MiB leave the directory and the tables. -/
theorem FreshDirectory.of_agree {m m' : Mem} {image : KernelImage} {lo hi : Nat} (h : FreshDirectory m image)
    (hm : Mem.AgreeOff m m' lo hi) (hlo : 0x400000 ≤ lo) : FreshDirectory m' image := by
  obtain ⟨-, -, hdir, -, -⟩ := image.layout (i := 768) (by decide) (by decide)
  refine ⟨h.directory.of_agree hm (by omega), fun i hi => ?_, fun i h₀ h₁ j hj => ?_⟩
  · rw [hm.get32 (by omega)]
    exact h.userHalf i hi
  · obtain ⟨-, -, -, htable, -⟩ := image.layout (i := i) (by omega) h₁
    rw [hm.get32 (by simp only [KernelImage.slot]; omega)]
    exact h.highmem i h₀ h₁ j hj

theorem get32_zero (a : Nat) : Mem.get32 (fun _ => 0) a = 0 := rfl

namespace FreshDirectory

variable {m : Mem} {image : KernelImage}

theorem findFreeSlot (h : FreshDirectory m image) :
    findFreeSlot m image.dir kernHighmemStartTbl 32 = some (992, 0) :=
  h.directory.findFreeSlot_first (by decide) (h.highmem 992 (by decide) (by decide) 0 (by decide))
    fun k hk => absurd hk (Nat.not_lt_zero k)

theorem walk_user (h : FreshDirectory m image) {va : Nat} (hva : va < 0xC0000000) :
    walk m image.dirPaddr va = none := by
  have hz := h.userHalf (pageDirIdx va) (by simp only [pageDirIdx]; omega)
  have hdec : PageDirEntry.decode 0 =
      ⟨false, false, false, false, false, false, false, false, 0, 0⟩ := by decide
  rw [walk, hz, hdec]
  rfl

/-- Every loop has a run over two frames in which the second is answered by the first. -/
theorem second_reaches_first (h : FreshDirectory m image) {loop : MapLoop} {p q : Nat} (hp : loop.Takes p)
    (hq : loop.Takes q) : ∃ trace, loop.Runs image image.dirPaddr ⟨m, []⟩ [p, q] trace ∧
      (q, some (frameOf p)) ∈ trace := by
  have hall : ∀ r ∈ [p, q], loop.Takes r := by
    intro r hr
    rcases List.mem_cons.mp hr with rfl | hr
    · exact hp
    · obtain rfl := List.mem_singleton.mp hr
      exact hq
  obtain ⟨trace, hrun, hmem⟩ := MapLoop.runs_first (s := ⟨m, []⟩) h.directory
    (sharesKernelHalf_self m image) hall h.findFreeSlot
  exact ⟨trace, hrun, hmem q List.mem_cons_self⟩

end FreshDirectory

theorem map_loop_reaches_own_iff_one_page : ∃ s : TlbState,
    s.mem = setupKernelDirectory sampleImage (fun _ => 0) ∧
      MapLoop.findTable.ReachesOwn sampleImage sampleImage.dirPaddr s [0x40000000, 0x40000010] := by
  obtain ⟨m, hm⟩ : ∃ m, m = setupKernelDirectory sampleImage fun _ => 0 := ⟨_, rfl⟩
  have hboot : FreshDirectory m sampleImage := by
    rw [hm]
    exact freshDirectory_setup sampleImage get32_zero
  have hnull : NullUnmapped sampleImage.dirPaddr ⟨m, []⟩ := by
    intro va hva
    exact hboot.walk_user (by omega)
  have htakes : ∀ p ∈ [0x40000000, 0x40000010], MapLoop.findTable.Takes p := by
    simp [MapLoop.Takes, kernIdentityPhysEnd]
  have hframes : ∀ p ∈ [0x40000000, 0x40000010], ∀ q ∈ [0x40000000, 0x40000010],
      frameOf p = frameOf q := by decide
  exact ⟨⟨m, []⟩, hm, (map_loop_reaches_own_iff hboot.directory (sharesKernelHalf_self m sampleImage)
    hnull htakes).mpr (Or.inr ⟨992, 0, hboot.findFreeSlot, hframes, by simp⟩)⟩

/-- Two pages in two frames: the second is looked for, and written, in the first. -/
theorem map_loop_reaches_own_fails : ∃ s : TlbState,
    s.mem = setupKernelDirectory sampleImage (fun _ => 0) ∧ s.used = [] ∧
      (∃ trace, MapLoop.findTable.Runs sampleImage sampleImage.dirPaddr s
        [0x40000000, 0x40001000] trace ∧ (0x40001000, some (frameOf 0x40000000)) ∈ trace) ∧
      (∃ trace, MapLoop.clonePages.Runs sampleImage sampleImage.dirPaddr s
        [0x40000000, 0x40001000] trace ∧ (0x40001000, some (frameOf 0x40000000)) ∈ trace) ∧
      frameOf 0x40000000 ≠ frameOf 0x40001000 := by
  obtain ⟨m, hm⟩ : ∃ m, m = setupKernelDirectory sampleImage fun _ => 0 := ⟨_, rfl⟩
  have hboot : FreshDirectory m sampleImage := by
    rw [hm]
    exact freshDirectory_setup sampleImage get32_zero
  refine ⟨⟨m, []⟩, hm, rfl, ?_, ?_, by decide⟩
  · apply hboot.second_reaches_first <;> simp [MapLoop.Takes, kernIdentityPhysEnd]
  · apply hboot.second_reaches_first <;> simp [MapLoop.Takes, kernIdentityPhysEnd]

end BrownieOS.Mm
