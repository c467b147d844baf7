import BrownieOS.Core.AcpiScan

/-!
# Tables that are there and tables that are not

`find_table` answers right as long as every table up to the first one with the signature
shows its own when its turn comes. Its callers do not look at the answer 0 before they read
the length behind it.
-/
namespace BrownieOS.Core

open BrownieOS.Lib BrownieOS.Lib.Word32 BrownieOS.LibC BrownieOS.Mm

/-- The copied RSDT lists the tables `ps`. -/
structure ValidRsdt (s : Acpi) (ps : List Nat) : Prop where
  version : s.acpiVersion < 2
  length : sizeofSdtHeader ≤ sdtLength s.heap.mem s.rsdt
  count : (sdtLength s.heap.mem s.rsdt - sizeofSdtHeader) / 4 = ps.length
  entry : ∀ i (h : i < ps.length), rsdtEntry s i = ps[i]
  nonzero : ∀ p ∈ ps, p ≠ 0

/-- The answer is 0 without a table of the signature, and for the first one the address
`kmap` gives for it when its turn comes, which is mapped to it. -/
def AnswersFirst (image : KernelImage) (m₀ m : Mem) (sig : Nat → Byte) (ps : List Nat)
    (answer : Option (Mem × Nat)) : Prop :=
  ((∀ p ∈ ps, ¬ HasSig m₀ sig p) → ∃ m', answer = some (m', 0)) ∧
    ∀ pre p post, ps = pre ++ p :: post → (∀ q ∈ pre, ¬ HasSig m₀ sig q) → HasSig m₀ sig p →
      ∃ m' v, answer = some (m', v) ∧ kmap image.dir (scanned image m pre) p = (m', v) ∧
        Mm.translate m' image.dirPaddr v = some p

/-- `find_table` finds the first table with the signature, or answers 0. -/
def FindsFirst (image : KernelImage) (s : Acpi) (ps : List Nat) (sig : Nat → Byte) : Prop :=
  AnswersFirst image s.mem s.mem sig ps
    ((findTable image sig s).map fun r => (r.1.mem, r.2))

/-- Every comparison up to the first table with the signature is right. -/
def SearchSees (image : KernelImage) (m₀ m : Mem) (sig : Nat → Byte) (ps : List Nat) : Prop :=
  ∀ pre p post, ps = pre ++ p :: post → (∀ q ∈ pre, ¬ HasSig m₀ sig q) →
    SignatureSeen image m₀ (scanned image m pre) sig p

/-- Up to the first table with the signature, every table shows its own. -/
def TablesShow (image : KernelImage) (m : Mem) (sig : Nat → Byte) (ps : List Nat) : Prop :=
  ∀ pre p post, ps = pre ++ p :: post → (∀ q ∈ pre, ¬ HasSig m sig q) → Shows image m sig pre p

/-- The signature a finder looks for, and where it keeps its copy. -/
def Finder.sig : Finder → Nat → Byte
  | .rsdtXsdt => fun _ => 0
  | .madt => madtSig
  | .hpet => hpetSig
  | .fadt => fadtSig

def Finder.copy (s : Acpi) : Finder → Nat
  | .rsdtXsdt => s.rsdt
  | .madt => s.madt
  | .hpet => s.hpet
  | .fadt => s.fadt

/-- The finder returns and leaves its copy NULL, so that `init_hpet` stops for the right
reason. -/
def Finder.LeavesNull (f : Finder) (image : KernelImage) (s : Acpi) : Prop :=
  ∃ fuel s', f.find image fuel s = .done s' ∧ f.copy s' = 0 ∧
    (f = .hpet → initHpetChecks s' = some "hpet not found")

/-! ## One comparison -/

section Comparison

variable {image : KernelImage} {m₀ m : Mem} {sig : Nat → Byte} {p v : Nat} {ps : List Nat}

/-- A comparison that goes through has read the first byte. -/
theorem vstrncmp_mapped {r : Int} (h : vstrncmp image m v sig 0 4 = some r)
    (hv : v < 4294967296) : ∃ q, Mm.translate m image.dirPaddr v = some q := by
  rw [vstrncmp, wadd_of_lt (by omega), Nat.add_zero] at h
  cases hb : Mm.translate m image.dirPaddr v with
  | none =>
    rw [vbyte, hb, Option.map_none] at h
    cases h
  | some q => exact ⟨q, rfl⟩

theorem BootDirectory.seen_kmap (hb : BootDirectory m image) (h0 : p ≠ 0) (hp : p < 4294967296)
    {r : Int} (h : vstrncmp image (Mm.kmap image.dir m p).1 (Mm.kmap image.dir m p).2 sig 0 4 = some r) :
    Mm.translate (Mm.kmap image.dir m p).1 image.dirPaddr (Mm.kmap image.dir m p).2 = some p :=
  hb.translate_kmap h0 hp (vstrncmp_mapped h (kmap_lt image m p))

end Comparison

/-! ## The list -/

section List

variable {image : KernelImage} {m₀ m m' : Mem} {sig : Nat → Byte} {p v i : Nat} {ps : List Nat}
  {sdtPtr : Nat → Nat}

/-- What is asked of every entry up to the first good one, entry by entry. -/
theorem forall_first_cons {α : Type} {good : α → Prop} {P : List α → α → Prop} {x : α} {xs : List α} :
    (∀ pre y post, x :: xs = pre ++ y :: post → (∀ z ∈ pre, ¬ good z) → P pre y) ↔
      P [] x ∧ (¬ good x → ∀ pre y post, xs = pre ++ y :: post → (∀ z ∈ pre, ¬ good z) →
        P (x :: pre) y) := by
  constructor
  · intro h
    refine ⟨h [] x xs rfl fun z hz => absurd hz List.not_mem_nil, fun hx pre y post he hpre => ?_⟩
    refine h (x :: pre) y post (by rw [he, List.cons_append]) fun z hz => ?_
    rcases List.mem_cons.1 hz with rfl | hz
    · exact hx
    · exact hpre z hz
  · rintro ⟨hx, hrest⟩ pre y post he hpre
    cases pre with
    | nil =>
      obtain ⟨rfl, -⟩ := List.cons.inj he
      exact hx
    | cons z pre =>
      obtain ⟨rfl, rfl⟩ := List.cons.inj he
      exact hrest (hpre x List.mem_cons_self) pre y post rfl
        fun z hz => hpre z (List.mem_cons_of_mem x hz)

theorem exists_first {α : Type} {good : α → Prop} {xs : List α} (h : ∃ x ∈ xs, good x) :
    ∃ pre x post, xs = pre ++ x :: post ∧ (∀ z ∈ pre, ¬ good z) ∧ good x := by
  by_contra hno
  have hall : ∀ x ∈ xs, ¬ good x := by
    induction xs with
    | nil => exact fun x hx => absurd hx List.not_mem_nil
    | cons x xs ih =>
      have hx : ¬ good x := fun hg =>
        hno ⟨[], x, xs, rfl, fun z hz => absurd hz List.not_mem_nil, hg⟩
      have hrest : ¬ ∃ pre y post, xs = pre ++ y :: post ∧ (∀ z ∈ pre, ¬ good z) ∧ good y := by
        rintro ⟨pre, y, post, rfl, hpre, hy⟩
        refine hno ⟨x :: pre, y, post, rfl, fun z hz => ?_, hy⟩
        rcases List.mem_cons.1 hz with rfl | hz
        · exact hx
        · exact hpre z hz
      intro z hz
      rcases List.mem_cons.1 hz with rfl | hz
      · exact hx
      · by_cases hex : ∃ y ∈ xs, good y
        · exact ih hex hrest z hz
        · exact fun hg => hex ⟨z, hz, hg⟩
  obtain ⟨x, hx, hg⟩ := h
  exact hall x hx hg

theorem searchSees_iff (hb : BootDirectory m image) (hps : ∀ p ∈ ps, p ≠ 0 ∧ p < 4294967296) :
    SearchSees image m m sig ps ↔ TablesShow image m sig ps := by
  unfold SearchSees TablesShow
  refine forall_congr' fun pre => forall_congr' fun p => forall_congr' fun post =>
    forall_congr' fun he => forall_congr' fun _ => ?_
  subst he
  obtain ⟨h0, hp⟩ := hps p (List.mem_append_right _ List.mem_cons_self)
  exact signatureSeen_iff hb (fun q hq => (hps q (List.mem_append_left _ hq)).1) h0 hp

/-- The answer for a list that goes on behind a table without the signature. -/
theorem answersFirst_cons {answer : Option (Mem × Nat)} (hp : ¬ HasSig m₀ sig p) :
    AnswersFirst image m₀ m sig (p :: ps) answer ↔ AnswersFirst image m₀
      (kunmap image.dir (kmap image.dir m p).1 (kmap image.dir m p).2) sig ps answer := by
  unfold AnswersFirst
  rw [@forall_first_cons _ (HasSig m₀ sig)]
  simp only [List.forall_mem_cons, hp, not_false_eq_true, true_and, false_implies, true_implies]
  rfl

/-- A right answer is 0, or the mapping of a table that has the signature. -/
theorem AnswersFirst.outcome {answer : Option (Mem × Nat)} (h : AnswersFirst image m₀ m sig ps answer) :
    (∃ m', answer = some (m', 0)) ∨ ∃ q m' v, HasSig m₀ sig q ∧ answer = some (m', v) ∧
      Mm.translate m' image.dirPaddr v = some q := by
  by_cases hex : ∃ q ∈ ps, HasSig m₀ sig q
  · obtain ⟨pre, q, post, he, hpre, hq⟩ := exists_first hex
    obtain ⟨m', v, hres, -, hto⟩ := h.2 pre q post he hpre hq
    exact Or.inr ⟨q, m', v, hq, hres, hto⟩
  · exact Or.inl (h.1 fun q hq hsig => hex ⟨q, hq, hsig⟩)

theorem searchSees_cons : SearchSees image m₀ m sig (p :: ps) ↔
    SignatureSeen image m₀ m sig p ∧ (¬ HasSig m₀ sig p → SearchSees image m₀
      (kunmap image.dir (kmap image.dir m p).1 (kmap image.dir m p).2) sig ps) :=
  @forall_first_cons _ (HasSig m₀ sig) _ _ _

theorem findTableLoop_cons (h : sdtPtr i = p) (n : Nat) :
    findTableLoop image sig sdtPtr i (n + 1) m =
      match vstrncmp image (kmap image.dir m p).1 (kmap image.dir m p).2 sig 0 4 with
      | none => none
      | some r =>
        if r = 0 then some (kmap image.dir m p)
        else findTableLoop image sig sdtPtr (i + 1) n
          (kunmap image.dir (kmap image.dir m p).1 (kmap image.dir m p).2) := by
  subst h
  rfl

/-- An answer other than 0 is an address at which the signature was seen. -/
theorem findTableLoop_some {n : Nat} (h : findTableLoop image sig sdtPtr i n m = some (m', v)) :
    v = 0 ∨ vstrncmp image m' v sig 0 4 = some 0 := by
  induction n generalizing i m with
  | zero => exact Or.inl (Prod.mk.inj (Option.some.inj h)).2.symm
  | succ n ih =>
    rw [findTableLoop_cons rfl] at h
    cases hcmp : vstrncmp image (kmap image.dir m (sdtPtr i)).1 (kmap image.dir m (sdtPtr i)).2 sig
        0 4 with
    | none =>
      rw [hcmp] at h
      cases h
    | some r =>
      rw [hcmp] at h
      dsimp only at h
      split at h
      · rename_i hr
        rw [Option.some.inj h, hr] at hcmp
        exact Or.inr hcmp
      · exact ih h

/-- The search answers right exactly when every comparison on the way is right. -/
theorem findTableLoop_answersFirst_iff (hb : BootDirectory m image)
    (hps : ∀ p ∈ ps, p ≠ 0 ∧ p < 4294967296)
    (hentry : ∀ k (h : k < ps.length), sdtPtr (i + k) = ps[k]) :
    AnswersFirst image m₀ m sig ps (findTableLoop image sig sdtPtr i ps.length m) ↔
      SearchSees image m₀ m sig ps := by
  induction ps generalizing i m with
  | nil =>
    constructor
    · exact fun _ pre p post he => absurd he (by simp)
    · exact fun _ => ⟨fun _ => ⟨m, rfl⟩, fun pre p post he => absurd he (by simp)⟩
  | cons p ps ih =>
    obtain ⟨h0, hp⟩ := hps p List.mem_cons_self
    have hnext := ih (m := kunmap image.dir (kmap image.dir m p).1 (kmap image.dir m p).2) (i := i + 1)
      ((hb.kmap p).kunmap (kmap_lt image m p)) (fun q hq => hps q (List.mem_cons_of_mem p hq))
      fun k hk => by
        have := hentry (k + 1) (by simpa using hk)
        rwa [show i + 1 + k = i + (k + 1) by omega]
    have hfirst : sdtPtr i = p := hentry 0 (Nat.zero_lt_succ _)
    rw [List.length_cons, findTableLoop_cons hfirst, searchSees_cons]
    have hnull : Mm.translate (kmap image.dir m p).1 image.dirPaddr 0 = none :=
      (hb.kmap p).translate_user (by decide)
    cases hcmp : vstrncmp image (kmap image.dir m p).1 (kmap image.dir m p).2 sig 0 4 with
    | none =>
      dsimp only
      constructor
      · intro ha
        rcases ha.outcome with ⟨m', hres⟩ | ⟨q, m', v, -, hres, -⟩
        · cases hres
        · cases hres
      · rintro ⟨⟨r, hr, -⟩, -⟩
        rw [hcmp] at hr
        cases hr
    | some r =>
      have htr := hb.seen_kmap h0 hp hcmp
      dsimp only
      by_cases hr : r = 0
      · rw [if_pos hr]
        constructor
        · intro ha
          have hsig : HasSig m₀ sig p := by
            rcases ha.outcome with ⟨m', hres⟩ | ⟨q, m', v, hq, hres, hto⟩
            · rw [Option.some.inj hres] at htr hnull
              rw [hnull] at htr
              cases htr
            · rw [Option.some.inj hres] at htr
              obtain rfl : q = p := Option.some.inj (hto.symm.trans htr)
              exact hq
          exact ⟨⟨r, hcmp, iff_of_true hr hsig⟩, fun hno => absurd hsig hno⟩
        · rintro ⟨⟨r', hr', hiff⟩, -⟩
          obtain rfl := Option.some.inj (hcmp.symm.trans hr')
          have hsig := hiff.1 hr
          refine ⟨fun hno => absurd hsig (hno p List.mem_cons_self), ?_⟩
          exact forall_first_cons.2 ⟨fun _ => ⟨_, _, rfl, rfl, htr⟩, fun hno => absurd hsig hno⟩
      · rw [if_neg hr]
        constructor
        · intro ha
          have hsig : ¬ HasSig m₀ sig p := by
            intro hsig
            obtain ⟨m', v, hres, hmap, -⟩ := ha.2 [] p ps rfl
              (fun q hq => absurd hq List.not_mem_nil) hsig
            rw [scanned, List.foldl_nil] at hmap
            rw [hmap] at hcmp htr hnull
            rcases findTableLoop_some hres with rfl | hseen
            · rw [hnull] at htr
              cases htr
            · exact hr (Option.some.inj (hcmp.symm.trans hseen))
          exact ⟨⟨r, hcmp, iff_of_false hr hsig⟩, fun _ => hnext.1 ((answersFirst_cons hsig).1 ha)⟩
        · rintro ⟨⟨r', hr', hiff⟩, hrest⟩
          obtain rfl := Option.some.inj (hcmp.symm.trans hr')
          have hsig : ¬ HasSig m₀ sig p := fun h => hr (hiff.2 h)
          exact (answersFirst_cons hsig).2 (hnext.2 (hrest hsig))

theorem BootDirectory.findTableLoop {n : Nat} (hb : BootDirectory m image)
    (h : Core.findTableLoop image sig sdtPtr i n m = some (m', v)) : BootDirectory m' image := by
  induction n generalizing i m with
  | zero =>
    obtain ⟨rfl, -⟩ := Prod.mk.inj (Option.some.inj h)
    exact hb
  | succ n ih =>
    rw [findTableLoop_cons rfl] at h
    have hkmap := hb.kmap (sdtPtr i)
    split at h
    · cases h
    · split at h
      · rwa [Option.some.inj h] at hkmap
      · exact ih (hkmap.kunmap (kmap_lt image m _)) h

end List

/-! ## The callers -/

section Callers

variable {image : KernelImage} {s : Acpi} {ps : List Nat} {sig : Nat → Byte} {f : Finder}

theorem ValidRsdt.findTable (hv : ValidRsdt s ps) : Core.findTable image sig s =
    (findTableLoop image sig (rsdtEntry s) 0 ps.length s.mem).map fun r =>
      ({ s with mem := r.1 }, r.2) := by
  have hlt : sdtLength s.heap.mem s.rsdt < 4294967296 := Mem.get32_lt _ _
  rw [Core.findTable, if_pos hv.version, wsub_of_le hv.length hlt, hv.count]

theorem ValidRsdt.entries (hv : ValidRsdt s ps) : ∀ p ∈ ps, p ≠ 0 ∧ p < 4294967296 := by
  intro p hp
  obtain ⟨i, hi, rfl⟩ := List.getElem_of_mem hp
  refine ⟨hv.nonzero _ hp, ?_⟩
  rw [← hv.entry i hi]
  exact Mem.get32_lt _ _

theorem findsFirst_iff (hb : BootDirectory s.mem image) (hv : ValidRsdt s ps) (sig : Nat → Byte) :
    FindsFirst image s ps sig ↔ TablesShow image s.mem sig ps := by
  rw [FindsFirst, hv.findTable, Option.map_map, ← searchSees_iff hb hv.entries]
  have hid : ((fun r : Acpi × Nat => (r.1.mem, r.2)) ∘ fun r : Mem × Nat => ({ s with mem := r.1 }, r.2)) =
      id := rfl
  rw [hid, Option.map_id, id]
  refine findTableLoop_answersFirst_iff hb hv.entries fun k hk => ?_
  rw [Nat.zero_add]
  exact hv.entry k hk

/-- Without a table to read, the length is read behind NULL. -/
theorem takeTable_null {size : Nat → Nat} {fuel : Nat} (hb : BootDirectory s.mem image) :
    takeTable image size fuel 0 s = .pageFault := by
  have hnone : vget32 image s.mem (wadd 0 4) = none := by
    rw [vget32, vbyte, hb.translate_user (by decide)]
    rfl
  rw [takeTable, hnone]

/-- A finder whose table is not listed faults. -/
theorem Finder.find_absent (hb : BootDirectory s.mem image) (hv : ValidRsdt s ps)
    (hf : f ≠ .rsdtXsdt) (hs : TablesShow image s.mem f.sig ps)
    (hno : ∀ p ∈ ps, ¬ HasSig s.mem f.sig p) (fuel : Nat) : f.find image fuel s = .pageFault := by
  have hanswers : AnswersFirst image s.mem s.mem f.sig ps
      (findTableLoop image f.sig (rsdtEntry s) 0 ps.length s.mem) :=
    (findTableLoop_answersFirst_iff hb hv.entries fun k hk => by
      rw [Nat.zero_add]
      exact hv.entry k hk).2 ((searchSees_iff hb hv.entries).2 hs)
  obtain ⟨m', hloop⟩ := hanswers.1 hno
  have hb' := hb.findTableLoop hloop
  have hfind : findTable image f.sig s = some ({ s with mem := m' }, 0) := by
    rw [hv.findTable, hloop, Option.map_some]
  have hsource : ∃ s', f.source image s = some (s', 0) ∧ s'.mem = m' := by
    cases f with
    | rsdtXsdt => exact absurd rfl hf
    | madt => exact ⟨_, congrArg (Option.map _) hfind, rfl⟩
    | hpet => exact ⟨_, congrArg (Option.map _) hfind, rfl⟩
    | fadt => exact ⟨_, congrArg (Option.map _) hfind, rfl⟩
  obtain ⟨s', hsource, hmem⟩ := hsource
  rw [Finder.find_eq, hsource]
  dsimp only
  rw [takeTable_null (hmem ▸ hb')]
  rfl

theorem Finder.not_leavesNull (hb : BootDirectory s.mem image) (hv : ValidRsdt s ps)
    (hf : f ≠ .rsdtXsdt) (hs : TablesShow image s.mem f.sig ps)
    (hno : ∀ p ∈ ps, ¬ HasSig s.mem f.sig p) : ¬ f.LeavesNull image s := by
  rintro ⟨fuel, s', hfind, -⟩
  rw [Finder.find_absent hb hv hf hs hno] at hfind
  cases hfind

/-- `find_table` answers right exactly when every table up to the first one with the
signature shows its own; a finder whose table is not listed never leaves NULL behind. -/
theorem missing_tables_iff (hb : BootDirectory s.mem image) (hv : ValidRsdt s ps) :
    (∀ sig, FindsFirst image s ps sig ↔ TablesShow image s.mem sig ps) ∧
      ∀ f : Finder, f ≠ .rsdtXsdt →
        ((FindsFirst image s ps f.sig ∧
            ((∀ p ∈ ps, ¬ HasSig s.mem f.sig p) → f.LeavesNull image s)) ↔
          TablesShow image s.mem f.sig ps ∧ ∃ p ∈ ps, HasSig s.mem f.sig p) := by
  refine ⟨findsFirst_iff hb hv, fun f hf => ?_⟩
  rw [findsFirst_iff hb hv]
  refine and_congr_right fun hs => ?_
  constructor
  · intro hnull
    by_contra hno
    have hnone : ∀ p ∈ ps, ¬ HasSig s.mem f.sig p := fun p hp hsig => hno ⟨p, hp, hsig⟩
    exact Finder.not_leavesNull hb hv hf hs hnone (hnull hnone)
  · rintro ⟨p, hp, hsig⟩ hnone
    exact absurd hsig (hnone p hp)

end Callers

section Sample

/-- A highmem table shows its signature as soon as there is a slot for it. -/
theorem fadtMem_shows (length : Nat) (sig : Nat → Byte) {pre : List Nat} (hpre : ∀ q ∈ pre, q ≠ 0) :
    Shows sampleImage (fadtMem length) sig pre 0xE0000000 := by
  refine (shows_iff_page (fadtMem_boot length) hpre (by decide) (by decide) (by decide)).2 ?_
  rw [if_neg (by decide), fadtMem_slot]
  exact Option.some_ne_none _

/-- A table in the window shows its signature as long as its page is there. -/
theorem fadtMem_shows_low (length : Nat) (sig : Nat → Byte) {pre : List Nat} {p : Nat}
    (hpre : ∀ q ∈ pre, q ≠ 0) (hlow : p < kernIdentityPhysEnd) (habove : 0x400000 ≤ p)
    (hpage : p % 4096 + 4 ≤ 4096) (hin : ¬ TakenOut pre (786432 + p / 4096)) :
    Shows sampleImage (fadtMem length) sig pre p := by
  have hlt := hlow
  simp only [kernIdentityPhysEnd] at hlt
  have hmapped := ((setupKernelDirectory_spec sampleImage fun _ => 0).2 ((786432 + p / 4096) / 1024)
    (by omega) (by omega) ((786432 + p / 4096) % 1024) (by omega)).of_agree (fadtMem_agree length)
      (by
        obtain ⟨-, -, -, htable, -⟩ := sampleImage.layout (i := (786432 + p / 4096) / 1024)
          (by omega) (by omega)
        omega)
  refine (shows_iff_page (fadtMem_boot length) hpre (by omega) hpage habove).2 ?_
  rw [if_pos hlow]
  exact ⟨hmapped.present, hin⟩

/-- A copied RSDT with two tables below 896 MiB and one above. -/
def listHeap : Heap :=
  let heap := (kmalloc bootHeap 48).1
  { heap with mem := (((heap.mem.set32 0xC0400014 48).set32 0xC0400034 0x1FFF0000).set32
      0xC0400038 0x1FFE1010).set32 0xC040003C 0xE0000000 }

def listAcpi : Acpi where
  mem := fadtMem 116
  heap := listHeap
  rsdt := 0xC0400010

theorem listAcpi_rsdt : ValidRsdt listAcpi [0x1FFF0000, 0x1FFE1010, 0xE0000000] where
  version := Nat.zero_lt_two
  length := by
    have : sizeofSdtHeader ≤ sdtLength listHeap.mem 0xC0400010 := by decide +kernel
    exact this
  count := by
    have : (sdtLength listHeap.mem 0xC0400010 - sizeofSdtHeader) / 4 = 3 := by decide +kernel
    exact this
  entry := by
    have hall : ∀ i : Fin 3, listHeap.mem.get32 (wadd 0xC0400010 (sizeofSdtHeader + 4 * i)) =
        [0x1FFF0000, 0x1FFE1010, 0xE0000000][i] := by decide +kernel
    exact fun i hi => hall ⟨i, hi⟩
  nonzero := by decide

/-- With a FADT as the last of three tables, `find_table` and `find_fadt` do what they
should. -/
theorem missing_tables_listed :
    FindsFirst sampleImage listAcpi [0x1FFF0000, 0x1FFE1010, 0xE0000000] fadtSig ∧
      ((∀ p ∈ [0x1FFF0000, 0x1FFE1010, 0xE0000000], ¬ HasSig (fadtMem 116) fadtSig p) →
        Finder.fadt.LeavesNull sampleImage listAcpi) := by
  have hshow : TablesShow sampleImage (fadtMem 116) fadtSig [0x1FFF0000, 0x1FFE1010, 0xE0000000] := by
    refine forall_first_cons.2 ⟨?_, fun _ => forall_first_cons.2 ⟨?_, fun _ =>
      forall_first_cons.2 ⟨?_, fun _ pre p post he => absurd he (by simp)⟩⟩⟩
    · exact fadtMem_shows_low 116 fadtSig (by decide) (by decide) (by decide) (by decide) (by decide)
    · exact fadtMem_shows_low 116 fadtSig (by decide) (by decide) (by decide) (by decide) (by decide)
    · exact fadtMem_shows 116 fadtSig (by decide)
  exact ((missing_tables_iff (s := listAcpi) (fadtMem_boot 116) listAcpi_rsdt).2 .fadt (by decide)).2
    ⟨hshow, 0xE0000000, by decide, fun _ hk => fadtMem_sig 116 hk⟩

/-- The list of one table. -/
theorem fadtAcpi_rsdt (length : Nat) : ValidRsdt (fadtAcpi length) [0xE0000000] where
  version := Nat.zero_lt_two
  length := by
    have : sizeofSdtHeader ≤ sdtLength rsdtHeap.mem 0xC0400010 := by decide +kernel
    exact this
  count := by
    have : (sdtLength rsdtHeap.mem 0xC0400010 - sizeofSdtHeader) / 4 = 1 := by decide +kernel
    exact this
  entry := by
    intro i hi
    obtain rfl : i = 0 := Nat.lt_one_iff.1 hi
    have : rsdtHeap.mem.get32 0xC0400034 = 0xE0000000 := by decide +kernel
    exact this
  nonzero := by decide

/-- With only the FADT listed, `find_hpet` reads a length behind NULL. -/
theorem find_hpet_faults : ValidRsdt (fadtAcpi 116) [0xE0000000] ∧
    (∀ p ∈ [0xE0000000], ¬ HasSig (fadtMem 116) hpetSig p) ∧
    (∀ fuel, Finder.hpet.find sampleImage fuel (fadtAcpi 116) = .pageFault) ∧
      ¬ Finder.hpet.LeavesNull sampleImage (fadtAcpi 116) := by
  have hno : ∀ p ∈ [0xE0000000], ¬ HasSig (fadtMem 116) hpetSig p := by
    intro p hp hsig
    obtain rfl := List.mem_singleton.1 hp
    have hfirst : fadtSig 0 = hpetSig 0 :=
      (fadtMem_sig (k := 0) 116 (by decide)).symm.trans (hsig 0 (by decide))
    exact absurd hfirst (by decide)
  have hb : BootDirectory (fadtAcpi 116).mem sampleImage := fadtMem_boot 116
  have hv := fadtAcpi_rsdt 116
  have hshow : TablesShow sampleImage (fadtAcpi 116).mem hpetSig [0xE0000000] :=
    forall_first_cons.2 ⟨fadtMem_shows 116 hpetSig (by decide),
      fun _ pre p post he => absurd he (by simp)⟩
  have habsent := Finder.find_absent (f := .hpet) hb hv (by decide) hshow hno
  have hnull := Finder.not_leavesNull (f := .hpet) hb hv (by decide) hshow hno
  exact ⟨hv, hno, habsent, hnull⟩

end Sample

end BrownieOS.Core
