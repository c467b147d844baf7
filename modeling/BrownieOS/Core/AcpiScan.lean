import BrownieOS.Core.AcpiCopy

/-!
# One table after the other

`find_table` maps one table at a time and unmaps it again before the next. A highmem table
comes and goes without a trace. A low one is unmapped from the identity window, which
nobody fills again, so its page is away for the tables that come later.
-/
namespace BrownieOS.Core

open BrownieOS.Lib BrownieOS.Lib.Word32 BrownieOS.LibC BrownieOS.Mm

/-- The table at the physical address `p` has the signature. -/
def HasSig (m : Mem) (sig : Nat → Byte) (p : Nat) : Prop := ∀ k < 4, m (p + k) = sig k

/-- The memory when the tables of `pre` have been mapped and unmapped again. -/
def scanned (image : KernelImage) (m : Mem) (pre : List Nat) : Mem :=
  pre.foldl (fun m p => kunmap image.dir (kmap image.dir m p).1 (kmap image.dir m p).2) m

/-- The comparison through the mapping of `p` goes through and tells whether the table has
the signature. -/
def SignatureSeen (image : KernelImage) (m₀ m : Mem) (sig : Nat → Byte) (p : Nat) : Prop :=
  ∃ r, vstrncmp image (kmap image.dir m p).1 (kmap image.dir m p).2 sig 0 4 = some r ∧
    (r = 0 ↔ HasSig m₀ sig p)

/-! ## What a table finds at its turn

All of this is about the page tables at the start and the list. -/

/-- Kernel page `n` is that of a low table in the list. -/
def TakenOut (pre : List Nat) (n : Nat) : Prop :=
  ∃ q ∈ pre, q < kernIdentityPhysEnd ∧ 786432 + q / 4096 = n

instance (pre : List Nat) (n : Nat) : Decidable (TakenOut pre n) :=
  inferInstanceAs (Decidable (∃ q ∈ pre, q < kernIdentityPhysEnd ∧ 786432 + q / 4096 = n))

/-- The memory without the window entries of the low tables in the list. -/
def withoutPages (image : KernelImage) (m : Mem) (pre : List Nat) : Mem :=
  pre.foldl (fun m q => if q < kernIdentityPhysEnd then
    m.set32 (image.slot (768 + q / 4194304) (q / 4096 % 1024)) 0 else m) m

/-- The kernel page where a table goes: a low one has its own, a highmem one takes the
first free slot. -/
def tablePage (image : KernelImage) (m : Mem) (p : Nat) : Option Nat :=
  if p < kernIdentityPhysEnd then some (786432 + p / 4096)
  else (findFreeSlot m image.dir kernHighmemStartTbl 32).map fun s => s.1 * 1024 + s.2

/-- The frame of kernel page `k` behind the tables of `pre`, with `p` at page `n`. -/
def frameBehind (image : KernelImage) (m : Mem) (pre : List Nat) (p n k : Nat) : Option Nat :=
  if kernIdentityPhysEnd ≤ p ∧ k = n then some (p / 4096)
  else if k < 1048576 ∧ (kernelPage image m k).present = true ∧ ¬ TakenOut pre k then
    some (kernelPage image m k).frame.toNat
  else none

/-- The memory behind the tables of `pre`, with `p` at page `n`. -/
def memoryBehind (image : KernelImage) (m : Mem) (pre : List Nat) (p n : Nat) : Mem :=
  if p < kernIdentityPhysEnd then withoutPages image m pre
  else (withoutPages image m pre).set32 (image.slot (n / 1024) (n % 1024)) (mappedWord p)

/-- Byte `k` of the table as it shows there. -/
def byteBehind (image : KernelImage) (m : Mem) (pre : List Nat) (p n k : Nat) : Option Byte :=
  (frameBehind image m pre p n (n + (p % 4096 + k) / 4096)).map fun f =>
    memoryBehind image m pre p n (4096 * f + (p + k) % 4096)

/-- The signature shows at page `n`: the page is there, so is the next one if the
signature runs into it and agrees so far, and the bytes tell what those of the table do. -/
structure ShowsAt (image : KernelImage) (m : Mem) (sig : Nat → Byte) (pre : List Nat) (p n : Nat) :
    Prop where
  page : frameBehind image m pre p n n ≠ none
  next : 4096 < p % 4096 + 4 →
    (∀ k, p % 4096 + k < 4096 → byteBehind image m pre p n k = some (sig k)) →
      frameBehind image m pre p n (n + 1) ≠ none
  same : (∀ k < 4, byteBehind image m pre p n k = some (sig k)) ↔ HasSig m sig p

/-- The signature of the table `p` shows behind the tables of `pre`. -/
def Shows (image : KernelImage) (m : Mem) (sig : Nat → Byte) (pre : List Nat) (p : Nat) : Prop :=
  ∃ n, tablePage image m p = some n ∧ ShowsAt image m sig pre p n

section Scan

variable {image : KernelImage} {m m₀ : Mem} {sig : Nat → Byte} {pre : List Nat} {p q n k i j v : Nat}

/-! ## Mapped and unmapped again -/

/-- One turn: a low table loses its page, a highmem one leaves no trace. -/
theorem kunmap_kmap (hk : KernelDirectory m image) (h0 : q ≠ 0) :
    kunmap image.dir (kmap image.dir m q).1 (kmap image.dir m q).2 =
      if q < kernIdentityPhysEnd then m.set32 (image.slot (768 + q / 4194304) (q / 4096 % 1024)) 0
      else m := by
  by_cases hlow : q < kernIdentityPhysEnd
  · have hmap : kmap image.dir m q = (m, kp2v q) := by rw [kmap, if_neg h0, if_pos hlow]
    obtain ⟨hdi, hti⟩ := kp2v_idx hlow
    have hkp := kp2v_eq hlow
    rw [hmap, if_pos hlow]
    simp only [kernIdentityPhysEnd] at hlow
    rw [kunmap_eq hk (by omega) (by omega), hdi, hti]
  · have hhigh : kernIdentityPhysEnd ≤ q := Nat.le_of_not_lt hlow
    rw [if_neg hlow]
    cases hslot : findFreeSlot m image.dir kernHighmemStartTbl 32 with
    | none =>
      rw [kmap_full hslot hhigh]
      exact kunmap_zero _ _
    | some slot =>
      have hslot' := hslot
      simp only [kernHighmemStartTbl] at hslot'
      obtain ⟨hi₀, hi, hj, hz⟩ := findFreeSlot_some (j := slot.2) _ _ hslot'
      rw [hk.pointers slot.1 (by omega) (by omega)] at hz
      have hzero : m.get32 (image.slot slot.1 slot.2) = 0 := hz
      have hoff := Nat.mod_lt q (show 0 < 4096 by decide)
      obtain ⟨hdi, hti, -⟩ := pageIdxVaddr_idx (i := slot.1) (by omega) hj hoff
      have hvaddr := pageIdxVaddr_eq (i := slot.1) (by omega) hj hoff
      rw [kmap_slot (i := slot.1) (j := slot.2) hk hslot hhigh]
      dsimp only
      rw [kunmap_eq (hk.set_slot (by omega) (by omega) hj) (by omega) (by omega), hdi, hti,
        Mem.set32_set32_self]
      have hsame := Mem.set32_get32_self m (image.slot slot.1 slot.2)
      rwa [hzero] at hsame

theorem BootDirectory.scanned (h : BootDirectory m image) (pre : List Nat) :
    BootDirectory (Core.scanned image m pre) image := by
  induction pre generalizing m with
  | nil => exact h
  | cons p pre ih => exact ih ((h.kmap p).kunmap (kmap_lt image m p))

/-- The whole way: the low tables' pages are gone, and that is all. -/
theorem scanned_eq (hb : BootDirectory m image) (hpre : ∀ q ∈ pre, q ≠ 0) :
    scanned image m pre = withoutPages image m pre := by
  induction pre generalizing m with
  | nil => rfl
  | cons q pre ih =>
    have hstep := kunmap_kmap hb.directory (hpre q List.mem_cons_self)
    have hnext := ih ((hb.kmap q).kunmap (kmap_lt image m q))
      fun r hr => hpre r (List.mem_cons_of_mem q hr)
    rw [hstep] at hnext
    rw [scanned, List.foldl_cons, hstep]
    exact hnext

/-! ## The entries behind a list -/

theorem takenOut_cons : TakenOut (q :: pre) n ↔
    (q < kernIdentityPhysEnd ∧ 786432 + q / 4096 = n) ∨ TakenOut pre n := by
  simp only [TakenOut, List.exists_mem_cons_iff]

/-- An entry is empty when its page was taken out, and as it was otherwise. -/
theorem get32_withoutPages (hi₀ : 768 ≤ i) (hi : i < 1024) (hj : j < 1024) :
    (TakenOut pre (i * 1024 + j) → (withoutPages image m pre).get32 (image.slot i j) = 0) ∧
      (¬ TakenOut pre (i * 1024 + j) →
        (withoutPages image m pre).get32 (image.slot i j) = m.get32 (image.slot i j)) := by
  induction pre generalizing m with
  | nil =>
    refine ⟨?_, fun _ => rfl⟩
    rintro ⟨q, hq, -⟩
    exact absurd hq List.not_mem_nil
  | cons q pre ih =>
    have hzero : ∀ m', m'.get32 (image.slot i j) = 0 →
        (withoutPages image m' pre).get32 (image.slot i j) = 0 := by
      intro m' hm'
      by_cases ht : TakenOut pre (i * 1024 + j)
      · exact (ih (m := m')).1 ht
      · rw [(ih (m := m')).2 ht, hm']
    have hstep : withoutPages image m (q :: pre) = withoutPages image
        (if q < kernIdentityPhysEnd then m.set32 (image.slot (768 + q / 4194304) (q / 4096 % 1024)) 0
          else m) pre := rfl
    rw [hstep, takenOut_cons]
    by_cases hlow : q < kernIdentityPhysEnd
    · have hword : (m.set32 (image.slot (768 + q / 4194304) (q / 4096 % 1024)) 0).get32
          (image.slot i j) = if i = 768 + q / 4194304 ∧ j = q / 4096 % 1024 then 0 else
            m.get32 (image.slot i j) :=
        image.get32_slot (by omega) (by simp only [kernIdentityPhysEnd] at hlow; omega) (by omega)
          hi₀ hi hj (by decide)
      rw [if_pos hlow]
      by_cases hq : 786432 + q / 4096 = i * 1024 + j
      · rw [if_pos (by omega)] at hword
        exact ⟨fun _ => hzero _ hword, fun hno => absurd (Or.inl ⟨hlow, hq⟩) hno⟩
      · rw [if_neg (by omega)] at hword
        refine ⟨fun ht => ih.1 (ht.resolve_left fun h => hq h.2), fun hno => ?_⟩
        rw [ih.2 fun ht => hno (Or.inr ht), hword]
    · rw [if_neg hlow]
      exact ⟨fun ht => ih.1 (ht.resolve_left fun h => hlow h.1), fun hno => ih.2 fun ht => hno (Or.inr ht)⟩

theorem takenOut_lt (h : TakenOut pre n) : n < 1015808 := by
  obtain ⟨q, -, hlow, rfl⟩ := h
  simp only [kernIdentityPhysEnd] at hlow
  omega

/-- The highmem slots are not touched. -/
theorem findFreeSlot_withoutPages (hb : BootDirectory m image) (hpre : ∀ q ∈ pre, q ≠ 0) :
    findFreeSlot (withoutPages image m pre) image.dir kernHighmemStartTbl 32 =
      findFreeSlot m image.dir kernHighmemStartTbl 32 := by
  apply findFreeSlot_congr
  intro l h₁ h₂
  simp only [kernHighmemStartTbl] at h₁ h₂
  have hptr := hb.directory.pointers l (by omega) (by omega)
  have hb' := hb.scanned pre
  rw [scanned_eq hb hpre] at hb'
  refine ⟨(hb'.directory.pointers l (by omega) (by omega)).trans hptr.symm, fun j hj => ?_⟩
  rw [hptr]
  refine (get32_withoutPages (i := l) (by omega) (by omega) hj).2 fun ht => ?_
  have := takenOut_lt ht
  omega

/-! ## A table behind a list -/

theorem tablePage_bounds (h : tablePage image m p = some n) : 786432 ≤ n ∧ n < 1048576 ∧
    (p < kernIdentityPhysEnd → n = 786432 + p / 4096) ∧ (kernIdentityPhysEnd ≤ p → 1015808 ≤ n) := by
  unfold tablePage at h
  split at h
  · rename_i hlow
    obtain rfl := Option.some.inj h
    have hle := hlow
    simp only [kernIdentityPhysEnd] at hle
    exact ⟨by omega, by omega, fun _ => rfl, fun hhigh => absurd hlow (Nat.not_lt_of_le hhigh)⟩
  · rename_i hhigh
    obtain ⟨slot, hslot, rfl⟩ := Option.map_eq_some_iff.1 h
    simp only [kernHighmemStartTbl] at hslot
    obtain ⟨hi₀, hi, hj, -⟩ := findFreeSlot_some (j := slot.2) _ _ hslot
    exact ⟨by omega, by omega, fun hlow => absurd hlow hhigh, fun _ => by omega⟩

/-- What `kmap` does at the table's turn. -/
theorem kmap_behind (hb : BootDirectory m image) (hpre : ∀ q ∈ pre, q ≠ 0) (h0 : p ≠ 0) :
    kmap image.dir (withoutPages image m pre) p = match tablePage image m p with
      | some n => (memoryBehind image m pre p n, 4096 * n + p % 4096)
      | none => (withoutPages image m pre, 0) := by
  by_cases hlow : p < kernIdentityPhysEnd
  · have hkp := kp2v_eq hlow
    rw [kmap, if_neg h0, if_pos hlow, tablePage, if_pos hlow, hkp]
    dsimp only
    rw [memoryBehind, if_pos hlow, show p + 0xC0000000 = 4096 * (786432 + p / 4096) + p % 4096 by omega]
  · have hhigh : kernIdentityPhysEnd ≤ p := Nat.le_of_not_lt hlow
    have hsearch := findFreeSlot_withoutPages hb hpre
    have hb' := hb.scanned pre
    rw [scanned_eq hb hpre] at hb'
    rw [tablePage, if_neg hlow]
    cases hslot : findFreeSlot m image.dir kernHighmemStartTbl 32 with
    | none => exact kmap_full (hsearch.trans hslot) hhigh
    | some slot =>
      have hslot' := hslot
      simp only [kernHighmemStartTbl] at hslot'
      obtain ⟨hi₀, hi, hj, -⟩ := findFreeSlot_some (j := slot.2) _ _ hslot'
      rw [kmap_slot (i := slot.1) (j := slot.2) hb'.directory (hsearch.trans hslot) hhigh,
        pageIdxVaddr_eq (by omega) hj (Nat.mod_lt _ (by decide)), Option.map_some]
      dsimp only
      rw [memoryBehind, if_neg hlow, show (slot.1 * 1024 + slot.2) / 1024 = slot.1 by omega,
        show (slot.1 * 1024 + slot.2) % 1024 = slot.2 by omega,
        show slot.1 * 4194304 + slot.2 * 4096 + p % 4096 = 4096 * (slot.1 * 1024 + slot.2) + p % 4096
          by omega]

theorem kernelPage_withoutPages (hk₀ : 786432 ≤ k) (hk : k < 1048576) :
    kernelPage image (withoutPages image m pre) k =
      if TakenOut pre k then Page.decode 0 else kernelPage image m k := by
  have hword := @get32_withoutPages image m pre (k / 1024) (k % 1024) (by omega) (by omega) (by omega)
  rw [show k / 1024 * 1024 + k % 1024 = k by omega] at hword
  rw [kernelPage, kernelPage]
  split
  · rename_i ht
    rw [hword.1 ht]
  · rename_i ht
    rw [hword.2 ht]

/-- A page that is not the table's own leads where it led, unless it was taken out. -/
theorem frame_withoutPages (hk₀ : 786432 ≤ k) (hk : k < 1048576) (o : Nat) :
    (if (kernelPage image (withoutPages image m pre) k).present then
        some (framePaddr (kernelPage image (withoutPages image m pre) k).frame + o) else none) =
      (if k < 1048576 ∧ (kernelPage image m k).present = true ∧ ¬ TakenOut pre k then
        some (kernelPage image m k).frame.toNat else none).map fun f => 4096 * f + o := by
  rw [kernelPage_withoutPages hk₀ hk]
  by_cases ht : TakenOut pre k
  · rw [if_pos ht, decode_zero, if_neg (by decide), if_neg fun h => h.2.2 ht, Option.map_none]
  · rw [if_neg ht]
    by_cases hpres : (kernelPage image m k).present = true
    · rw [if_pos hpres, if_pos ⟨hk, hpres, ht⟩, Option.map_some, framePaddr, Nat.mul_comm]
    · rw [if_neg hpres, if_neg fun h => hpres h.2.1, Option.map_none]

/-- The kernel pages behind the list, and where they lead. -/
theorem translate_behind (hb : BootDirectory m image) (hpre : ∀ q ∈ pre, q ≠ 0)
    (hp : p < 4294967296) (hn : tablePage image m p = some n) {o : Nat} (hk₀ : 786432 ≤ k)
    (hk : k < 1048576) (ho : o < 4096) :
    Mm.translate (memoryBehind image m pre p n) image.dirPaddr (4096 * k + o) =
      (frameBehind image m pre p n k).map fun f => 4096 * f + o := by
  obtain ⟨hn₀, hn₁, -, -⟩ := tablePage_bounds hn
  have hdir := (hb.scanned pre).directory
  rw [scanned_eq hb hpre] at hdir
  have hplain := @frame_withoutPages image m pre k hk₀ hk o
  unfold memoryBehind frameBehind
  by_cases hlow : p < kernIdentityPhysEnd
  · rw [if_pos hlow, if_neg fun h => absurd hlow (Nat.not_lt_of_le h.1),
      KernelDirectory.translate_page hdir hk₀ hk ho, hplain]
  · have hset := @kernelPage_set_slot (withoutPages image m pre) image p (n / 1024) (n % 1024) k (by omega)
      (by omega) (by omega) hk₀ hk
    rw [show n / 1024 * 1024 + n % 1024 = n by omega] at hset
    rw [if_neg hlow, KernelDirectory.translate_page (hdir.set_slot (by omega) (by omega) (by omega))
      hk₀ hk ho, hset]
    by_cases hkn : k = n
    · have hframe : framePaddr (BitVec.ofNat 20 (pageFrame p)) + o = 4096 * (p / 4096) + o := by
        simp only [framePaddr, BitVec.toNat_ofNat, pageFrame]
        omega
      rw [if_pos hkn, decode_mappedWord, if_pos rfl, if_pos (And.intro (Nat.le_of_not_lt hlow) hkn),
        Option.map_some]
      exact congrArg some hframe
    · rw [if_neg hkn, hplain, if_neg (fun h : kernIdentityPhysEnd ≤ p ∧ k = n => hkn h.2)]

/-- The bytes the comparison reads. -/
theorem vbyte_behind (hb : BootDirectory m image) (hpre : ∀ q ∈ pre, q ≠ 0) (hp : p < 4294967296)
    (hn : tablePage image m p = some n) (hk : k < 4) :
    vbyte image (memoryBehind image m pre p n) (wadd (4096 * n + p % 4096) k) =
      byteBehind image m pre p n k := by
  obtain ⟨hn₀, hn₁, -, -⟩ := tablePage_bounds hn
  obtain ⟨t, ht⟩ : ∃ t, t = (p % 4096 + k) / 4096 := ⟨_, rfl⟩
  unfold vbyte byteBehind
  rw [← ht]
  by_cases hfit : n + t < 1048576
  · have haddr : wadd (4096 * n + p % 4096) k = 4096 * (n + t) + (p + k) % 4096 := by
      simp only [wadd]
      omega
    rw [haddr, translate_behind hb hpre hp hn (by omega) hfit (Nat.mod_lt _ (by decide)),
      Option.map_map]
    rfl
  · -- behind the last page of the kernel half stands page 0
    have haddr : wadd (4096 * n + p % 4096) k < 0xC0000000 := by
      simp only [wadd]
      omega
    have hboot := (hb.scanned pre).kmap p
    have hkmap := kmap_behind (p := p) hb hpre (by
      rintro rfl
      simp only [Nat.zero_mod] at ht
      omega)
    rw [hn] at hkmap
    rw [scanned_eq hb hpre, hkmap] at hboot
    have hnone : frameBehind image m pre p n (n + t) = none := by
      rw [frameBehind, if_neg fun h => by omega, if_neg fun h => by omega]
    rw [hboot.translate_user haddr, hnone]
    rfl

/-- Bytes that differ end the comparison. -/
theorem vstrncmp_differ {c : Byte} {i n : Nat} (hc : vbyte image m (wadd v i) = some c)
    (hne : c ≠ sig i) : ∃ r, vstrncmp image m v sig i (n + 1) = some r ∧ r ≠ 0 := by
  rw [vstrncmp, hc]
  dsimp only
  split
  · exact ⟨-1, rfl, by decide⟩
  · rename_i hle
    split
    · exact ⟨1, rfl, by decide⟩
    · rename_i hge
      exact absurd (BitVec.le_antisymm (BitVec.not_lt.1 hge) (BitVec.not_lt.1 hle)) hne

theorem vstrncmp_agree {i n : Nat} (hc : vbyte image m (wadd v i) = some (sig i)) :
    vstrncmp image m v sig i (n + 1) = vstrncmp image m v sig (i + 1) n := by
  rw [vstrncmp, hc]
  dsimp only
  rw [if_neg (BitVec.lt_irrefl _), if_neg (BitVec.lt_irrefl _)]

/-- A comparison goes through and tells `P` exactly when a byte is there wherever all those
before agree, and all agree exactly when `P`. -/
theorem vstrncmp_tells_iff {b : Nat → Option Byte} {P : Prop} {i n : Nat}
    (hbytes : ∀ k, i ≤ k → k < i + n → vbyte image m (wadd v k) = b k) :
    (∃ r, vstrncmp image m v sig i n = some r ∧ (r = 0 ↔ P)) ↔
      (∀ k, i ≤ k → k < i + n → (∀ l, i ≤ l → l < k → b l = some (sig l)) → b k ≠ none) ∧
        ((∀ k, i ≤ k → k < i + n → b k = some (sig k)) ↔ P) := by
  induction n generalizing i with
  | zero =>
    have hend : ∀ k, i ≤ k → k < i + 0 → b k = some (sig k) := fun k h₁ h₂ => by omega
    constructor
    · rintro ⟨r, hr, hP⟩
      obtain rfl : (0 : Int) = r := Option.some.inj hr
      exact ⟨fun k h₁ h₂ => by omega, iff_of_true hend (hP.1 rfl)⟩
    · rintro ⟨-, hP⟩
      exact ⟨0, rfl, iff_of_true rfl (hP.1 hend)⟩
  | succ n ih =>
    have hfirst := hbytes i (Nat.le_refl i) (by omega)
    cases hc : b i with
    | none =>
      constructor
      · rintro ⟨r, hr, -⟩
        rw [vstrncmp, hfirst, hc] at hr
        cases hr
      · rintro ⟨hread, -⟩
        exact absurd hc (hread i (Nat.le_refl i) (by omega) fun l h₁ h₂ => by omega)
    | some c =>
      rw [hc] at hfirst
      by_cases heq : c = sig i
      · subst heq
        have hsplit : ∀ k, i ≤ k → k = i ∨ i + 1 ≤ k := fun k hk => by omega
        rw [vstrncmp_agree hfirst, ih fun k h₁ h₂ => hbytes k (by omega) (by omega)]
        refine and_congr ⟨fun h k h₁ h₂ hl => ?_, fun h k h₁ h₂ hl => ?_⟩
          (iff_congr ⟨fun h k h₁ h₂ => ?_, fun h k h₁ h₂ => h k (by omega) (by omega)⟩ Iff.rfl)
        · rcases hsplit k h₁ with rfl | hk
          · rw [hc]
            exact Option.some_ne_none _
          · exact h k hk (by omega) fun l h₁ h₂ => hl l (by omega) h₂
        · refine h k (by omega) (by omega) fun l h₁ h₂ => ?_
          rcases hsplit l h₁ with rfl | hl'
          · exact hc
          · exact hl l hl' h₂
        · rcases hsplit k h₁ with rfl | hk
          · exact hc
          · exact h k hk (by omega)
      · have hdiff : b i ≠ some (sig i) := fun h => heq (Option.some.inj (hc.symm.trans h))
        obtain ⟨r, hr, hne⟩ := vstrncmp_differ (n := n) hfirst heq
        have hall : ¬ ∀ k, i ≤ k → k < i + (n + 1) → b k = some (sig k) := fun h =>
          hdiff (h i (Nat.le_refl i) (by omega))
        constructor
        · rintro ⟨r', hr', hP⟩
          obtain rfl := Option.some.inj (hr.symm.trans hr')
          refine ⟨fun k h₁ h₂ hl => ?_, iff_of_false hall fun h => hne (hP.2 h)⟩
          by_cases hk : k = i
          · rw [hk, hc]
            exact Option.some_ne_none _
          · exact absurd (hl i (Nat.le_refl i) (by omega)) hdiff
        · rintro ⟨-, hP⟩
          exact ⟨r, hr, iff_of_false hne fun h => hall (hP.2 h)⟩

/-- The comparison at the table's turn is right exactly when its signature shows. -/
theorem signatureSeen_iff (hb : BootDirectory m image) (hpre : ∀ q ∈ pre, q ≠ 0) (h0 : p ≠ 0)
    (hp : p < 4294967296) :
    SignatureSeen image m (scanned image m pre) sig p ↔ Shows image m sig pre p := by
  unfold SignatureSeen Shows
  rw [scanned_eq hb hpre, kmap_behind hb hpre h0]
  cases hn : tablePage image m p with
  | none =>
    have hboot := hb.scanned pre
    rw [scanned_eq hb hpre] at hboot
    have hfault : vstrncmp image (withoutPages image m pre) 0 sig 0 4 = none := by
      rw [vstrncmp, vbyte, hboot.translate_user (by decide)]
      rfl
    dsimp only
    rw [hfault]
    constructor
    · rintro ⟨r, hr, -⟩
      cases hr
    · rintro ⟨n, hnone, -⟩
      cases hnone
  | some n =>
    dsimp only
    have hbytes : ∀ k, 0 ≤ k → k < 0 + 4 → vbyte image (memoryBehind image m pre p n)
        (wadd (4096 * n + p % 4096) k) = byteBehind image m pre p n k :=
      fun k _ hk => vbyte_behind hb hpre hp hn (by omega)
    have hthere : ∀ k, byteBehind image m pre p n k ≠ none ↔
        frameBehind image m pre p n (n + (p % 4096 + k) / 4096) ≠ none := fun k => by
      rw [byteBehind, ne_eq, Option.map_eq_none_iff]
    rw [vstrncmp_tells_iff hbytes]
    simp only [Nat.zero_le, true_implies, Nat.zero_add]
    constructor
    · rintro ⟨hread, hsame⟩
      refine ⟨n, rfl, ?_, fun hcross hagree => ?_, hsame⟩
      · have hfirst := (hthere 0).1 (hread 0 (by decide) fun l hl => absurd hl (Nat.not_lt_zero l))
        rwa [show n + (p % 4096 + 0) / 4096 = n by omega] at hfirst
      · have hk := (hthere (4096 - p % 4096)).1 (hread _ (by omega) fun l hl => hagree l (by omega))
        rwa [show n + (p % 4096 + (4096 - p % 4096)) / 4096 = n + 1 by omega] at hk
    · rintro ⟨n', hn', hpage, hnext, hsame⟩
      obtain rfl := Option.some.inj hn'
      refine ⟨fun k hk hagree => (hthere k).2 ?_, hsame⟩
      by_cases hin : p % 4096 + k < 4096
      · rwa [show n + (p % 4096 + k) / 4096 = n by omega]
      · rw [show n + (p % 4096 + k) / 4096 = n + 1 by omega]
        exact hnext (by omega) fun l hl => hagree l (by omega)

/-! ## A signature inside one page -/

/-- Above the page tables everything stays. -/
theorem memoryBehind_off (hb : BootDirectory m image) (hpre : ∀ q ∈ pre, q ≠ 0) (h0 : p ≠ 0)
    (hn : tablePage image m p = some n) {a : Nat} (ha : 0x400000 ≤ a) :
    memoryBehind image m pre p n a = m a := by
  have hkmap := kmap_behind (p := p) hb hpre h0
  have hoff : ∀ (pre : List Nat) (m : Mem), withoutPages image m pre a = m a := by
    intro pre
    induction pre with
    | nil => exact fun _ => rfl
    | cons q pre ih =>
      intro m
      rw [withoutPages, List.foldl_cons]
      refine (ih _).trans ?_
      split
      · rename_i hlow
        simp only [kernIdentityPhysEnd] at hlow
        obtain ⟨-, -, -, htable, -⟩ := image.layout (i := 768 + q / 4194304) (by omega) (by omega)
        exact Mem.set32_apply_of_off m _ (by simp only [KernelImage.slot]; omega)
      · rfl
  have hboot := hb.scanned pre
  rw [scanned_eq hb hpre] at hboot
  have hkept : (kmap image.dir (withoutPages image m pre) p).1 a = withoutPages image m pre a :=
    kmap_off hboot ha
  rwa [hkmap, hn, hoff] at hkept

/-- Such a signature above the page tables shows exactly when the page is there: a low
table's in the window at the start and of no low table before, a highmem table's as long as
a slot is free. -/
theorem shows_iff_page (hb : BootDirectory m image) (hpre : ∀ q ∈ pre, q ≠ 0)
    (hp : p < 4294967296) (hpage : p % 4096 + 4 ≤ 4096) (habove : 0x400000 ≤ p) :
    Shows image m sig pre p ↔ if p < kernIdentityPhysEnd then
      (kernelPage image m (786432 + p / 4096)).present = true ∧ ¬ TakenOut pre (786432 + p / 4096)
      else findFreeSlot m image.dir kernHighmemStartTbl 32 ≠ none := by
  have hshows : ∀ n, tablePage image m p = some n → (ShowsAt image m sig pre p n ↔
      frameBehind image m pre p n n ≠ none) := by
    intro n hn
    refine ⟨ShowsAt.page, fun hframe => ⟨hframe, fun hcross => by omega, ?_⟩⟩
    obtain ⟨hn₀, hn₁, hown, -⟩ := tablePage_bounds hn
    have hf : frameBehind image m pre p n n = some (p / 4096) := by
      unfold frameBehind at hframe ⊢
      by_cases hlow : p < kernIdentityPhysEnd
      · have hno : ¬ (kernIdentityPhysEnd ≤ p ∧ n = n) := fun h => absurd hlow (Nat.not_lt_of_le h.1)
        rw [if_neg hno] at hframe ⊢
        split at hframe
        · rename_i hthere
          rw [if_pos hthere]
          rcases hb.window (n / 1024) (by omega)
            (by have := hown hlow; simp only [kernIdentityPhysEnd] at hlow; omega) (n % 1024)
            (by omega) with hmapped | hzero
          · have hto : (kernelPage image m n).frame.toNat = (n / 1024 - 768) * 1024 + n % 1024 :=
              hmapped.frame
            rw [hto, hown hlow]
            exact congrArg some (by omega)
          · have hgone := hthere.2.1
            rw [kernelPage, hzero, decode_zero] at hgone
            cases hgone
        · exact absurd rfl hframe
      · rw [if_pos ⟨Nat.le_of_not_lt hlow, rfl⟩]
    have hbyte : ∀ k < 4, byteBehind image m pre p n k = some (m (p + k)) := by
      intro k hk
      rw [byteBehind, show n + (p % 4096 + k) / 4096 = n by omega, hf, Option.map_some,
        show 4096 * (p / 4096) + (p + k) % 4096 = p + k by omega,
        memoryBehind_off hb hpre (by omega) hn (by omega)]
    exact ⟨fun h k hk => Option.some.inj ((hbyte k hk).symm.trans (h k hk)),
      fun h k hk => (hbyte k hk).trans (congrArg some (h k hk))⟩
  by_cases hlow : p < kernIdentityPhysEnd
  · have hn : tablePage image m p = some (786432 + p / 4096) := if_pos hlow
    rw [if_pos hlow]
    unfold Shows
    rw [hn]
    simp only [Option.some.injEq, exists_eq_left', hshows _ hn, frameBehind]
    rw [if_neg fun h => absurd hlow (Nat.not_lt_of_le h.1)]
    simp only [kernIdentityPhysEnd] at hlow
    split
    · rename_i hthere
      exact iff_of_true (Option.some_ne_none _) hthere.2
    · rename_i hgone
      exact iff_of_false (fun h => h rfl) fun h => hgone ⟨by omega, h⟩
  · rw [if_neg hlow]
    unfold Shows
    cases hn : tablePage image m p with
    | none =>
      rw [tablePage, if_neg hlow, Option.map_eq_none_iff] at hn
      rw [hn]
      refine iff_of_false ?_ fun h => h rfl
      rintro ⟨n, h, -⟩
      cases h
    | some n =>
      have hslot : findFreeSlot m image.dir kernHighmemStartTbl 32 ≠ none := by
        intro hnone
        rw [tablePage, if_neg hlow, hnone] at hn
        cases hn
      refine iff_of_true ⟨n, rfl, (hshows n hn).2 ?_⟩ hslot
      rw [frameBehind, if_pos ⟨Nat.le_of_not_lt hlow, rfl⟩]
      exact Option.some_ne_none _

/-- Behind a low table nothing on its page shows. -/
theorem not_shows_behind (hp : p < kernIdentityPhysEnd) (hq : q ∈ pre) (hpage : q / 4096 = p / 4096) :
    ¬ Shows image m sig pre p := by
  rintro ⟨n, hn, hshows⟩
  rw [tablePage, if_pos hp] at hn
  obtain rfl := Option.some.inj hn
  refine hshows.page ?_
  rw [frameBehind, if_neg fun h => absurd hp (Nat.not_lt_of_le h.1), if_neg]
  rintro ⟨-, -, hin⟩
  refine hin ⟨q, hq, ?_, by rw [hpage]⟩
  simp only [kernIdentityPhysEnd] at hp ⊢
  omega

end Scan

end BrownieOS.Core
