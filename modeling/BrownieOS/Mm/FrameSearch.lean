import BrownieOS.Lib.RunLength
import BrownieOS.Mm.FrameLedger

/-!
# What `alloc_pages` looks for

The scan of `alloc_pages` is a run-length pass over the frames of a zone. In lowmem the pass
ends at the bound. In highmem the address wraps to 0 first, and the search goes on below
the zone.
-/
namespace BrownieOS.Mm

open BrownieOS.Lib BrownieOS.Lib.Word32

def freeFrame (framemap : FrameMap) (f : Nat) : Bool := !framemap.test f

variable {framemap framemap' : FrameMap} {endAddr count run base f n p fuel : Nat}

theorem wadd_wmul_pageSize (p : Nat) :
    wadd (wmul p pageSize) pageSize = wmul (p + 1) pageSize := by
  simp only [wadd, wmul, pageSize]
  omega

theorem wmul_pageSize (h : p < nFrames) : wmul p pageSize = 4096 * p := by
  simp only [nFrames] at h
  simp only [wmul, pageSize]
  omega

/-- The base of the window of `count` pages that ends with page `p`. -/
theorem wsub_window (hc : 0 < count) (hp : p < nFrames) (h : count ≤ p + 1) :
    wsub (wmul p pageSize) (pagePaddr (wsub count 1)) = 4096 * (p + 1 - count) := by
  simp only [nFrames] at hp
  have hsub : wsub count 1 = count - 1 := wsub_of_le hc (by omega)
  have hlast : pagePaddr (count - 1) = (count - 1) * 4096 := wmul_of_lt (by omega)
  rw [hsub, hlast, wmul_pageSize hp, wsub_of_le (by omega) (by omega)]
  omega

/-- A pass of the scan over `n` frames below the bound. -/
theorem allocPagesScan_pass (hc : count < 4294967296) (hin : p + n ≤ nFrames) (hrun : run < count)
    (hp : run ≤ p) (hend : ∀ q, q < p + n → 4096 * q < endAddr) :
    allocPagesScan framemap endAddr count (n + fuel) run (wmul p pageSize) =
      match scanRuns (freeFrame framemap) count p run n with
      | .inl f => some (some (4096 * f))
      | .inr run' => allocPagesScan framemap endAddr count fuel run' (wmul (p + n) pageSize) := by
  induction n generalizing p run with
  | zero =>
    rw [Nat.zero_add]
    rfl
  | succ n ih =>
    have hpn : p < nFrames := by omega
    have hlt : wmul p pageSize < endAddr := by
      rw [wmul_pageSize hpn]
      exact hend p (by omega)
    have hdiv : wmul p pageSize / 4096 = p := by rw [wmul_pageSize hpn]; omega
    have hnext : ∀ run', run' < count → run' ≤ p + 1 →
        allocPagesScan framemap endAddr count (n + fuel) run' (wadd (wmul p pageSize) pageSize) =
          match scanRuns (freeFrame framemap) count (p + 1) run' n with
          | .inl f => some (some (4096 * f))
          | .inr run' =>
            allocPagesScan framemap endAddr count fuel run' (wmul (p + (n + 1)) pageSize) := by
      intro run' h₁ h₂
      rw [wadd_wmul_pageSize, ih (by omega) h₁ h₂ (fun q hq => hend q (by omega)),
        Nat.add_right_comm p 1 n, Nat.add_assoc]
    rw [Nat.add_right_comm, allocPagesScan, if_pos hlt, testFrame_eq, hdiv, scanRuns]
    cases hf : framemap.test p with
    | true =>
      have hused : freeFrame framemap p = false := by simp [freeFrame, hf]
      simp only [hused, Bool.true_eq_false, Bool.false_eq_true, ↓reduceIte]
      exact hnext 0 (by omega) (Nat.zero_le _)
    | false =>
      have hfree : freeFrame framemap p = true := by simp [freeFrame, hf]
      have hwadd : wadd run 1 = run + 1 := wadd_of_lt (by omega)
      simp only [hfree, hwadd, ↓reduceIte]
      by_cases hlast : run + 1 = count
      · rw [if_pos hlast, if_pos hlast, wsub_window (by omega) hpn (by omega)]
      · rw [if_neg hlast, if_neg hlast]
        exact hnext (run + 1) (by omega) (by omega)

/-- At the bound the scan gives up. -/
theorem allocPagesScan_over {paddr : Nat} (h : endAddr ≤ paddr) :
    allocPagesScan framemap endAddr count (fuel + 1) run paddr = some none := by
  rw [allocPagesScan, if_neg (by omega)]

/-- The zone's frames from `lo` up to `hi` have no room for `count` pages. -/
def NoWindow (framemap : FrameMap) (count lo hi : Nat) : Prop :=
  ∀ f, lo ≤ f → f + count ≤ hi → ¬ Window (freeFrame framemap) count f

/-- The frames of the first window of a zone, and the bitmap in which they are used. -/
inductive FirstFitFrames (framemap : FrameMap) (count lo hi : Nat) : Nat × FrameMap → Prop
  | found {f : Nat} {framemap' : FrameMap} :
      FirstWindow (freeFrame framemap) count lo hi f →
      (∀ g, framemap'.test g = (decide (f ≤ g ∧ g < f + count) || framemap.test g)) →
      FirstFitFrames framemap count lo hi (4096 * f, framemap')

theorem FirstFitFrames.mark {lo hi : Nat}
    (h : FirstWindow (freeFrame framemap) count lo hi f) (hhi : hi ≤ nFrames) :
    FirstFitFrames framemap count lo hi (4096 * f, markFrames framemap (4096 * f) count) := by
  have hbelow := h.below
  have hdiv : 4096 * f / 4096 = f := Nat.mul_div_cancel_left f (by decide)
  refine .found h fun g => ?_
  rw [markFrames_eq framemap (by omega) (by omega), Bitmap.test_setRange (by decide), hdiv]

/-! ## Lowmem -/

/-- What `alloc_pages(PMM_FLAGS_DEFAULT, count)` answers. -/
inductive LowmemAnswer (framemap : FrameMap) (count : Nat) : Nat × FrameMap → Prop
  | found {answer : Nat × FrameMap} :
      FirstFitFrames framemap count 0 (kernIdentityPhysEnd / 4096) answer →
      LowmemAnswer framemap count answer
  | refused : NoWindow framemap count 0 (kernIdentityPhysEnd / 4096) →
      LowmemAnswer framemap count (0, framemap)

theorem allocPages_default_answer (hc : 1 ≤ count) (hc' : count < 4294967296) :
    ∃ answer, allocPages framemap pmmFlagsDefault count = some answer ∧
      LowmemAnswer framemap count answer := by
  have hflag : ¬ (pmmFlagsDefault &&& pmmFlagsHighmem ≠ 0) := by decide
  have hpass := @allocPagesScan_pass framemap kernIdentityPhysEnd count 0 0x38000 0
    (scanFuel - 0x38001 + 1) hc' (by decide) hc (Nat.le_refl 0)
    (fun q hq => by simp only [kernIdentityPhysEnd]; omega)
  have hend := scanRuns_end (RunBefore.start (freeFrame framemap) 0 hc)
    (show 0 + 0x38000 = kernIdentityPhysEnd / 4096 from rfl)
  have hfuel : 0x38000 + (scanFuel - 0x38001 + 1) = scanFuel := by decide
  have hstart : wmul 0 pageSize = 0 := rfl
  rw [hfuel, hstart] at hpass
  generalize scanRuns (freeFrame framemap) count 0 0 0x38000 = pass at hpass hend
  simp only [allocPages, if_neg hflag]
  cases hend with
  | @found f hfirst =>
    have hscan : allocPagesScan framemap kernIdentityPhysEnd count scanFuel 0 0 =
        some (some (4096 * f)) := hpass
    simp only [hscan]
    exact ⟨_, rfl, .found (.mark hfirst (by decide))⟩
  | ended hmissed =>
    have hscan : allocPagesScan framemap kernIdentityPhysEnd count scanFuel 0 0 = some none :=
      hpass.trans (allocPagesScan_over (by decide))
    simp only [hscan]
    exact ⟨(0, framemap), rfl, .refused hmissed.missed⟩

/-- A default request is answered with the lowest window of free frames below 896 MiB, and
is refused, with nothing changed, only when there is none. -/
theorem allocPages_default_first_fit (h0 : framemap.test 0 = true) (hc : 1 ≤ count)
    (hc' : count < 4294967296) :
    ∃ answer, allocPages framemap pmmFlagsDefault count = some answer ∧
      LowmemAnswer framemap count answer ∧
      (answer.1 = 0 ↔ NoWindow framemap count 0 (kernIdentityPhysEnd / 4096)) := by
  obtain ⟨answer, hcall, hanswer⟩ := allocPages_default_answer hc hc'
  refine ⟨answer, hcall, hanswer, ?_⟩
  cases hanswer with
  | refused hno => exact iff_of_true rfl hno
  | found hfit =>
    cases hfit with
    | @found f framemap' hfirst hmark =>
      have hfree := hfirst.window
      have hpos : f ≠ 0 := by
        intro hz
        subst hz
        have hused := hfree 0 (Nat.le_refl 0) (by omega)
        simp [freeFrame, h0] at hused
      refine iff_of_false (fun hz => ?_) fun hno => hno f hfirst.above hfirst.below hfree
      simp only at hz
      omega

theorem allocPages_default_first_fit_one :
    ∃ answer, allocPages lowUsed pmmFlagsDefault 1 = some answer ∧
      LowmemAnswer lowUsed 1 answer ∧
      (answer.1 = 0 ↔ NoWindow lowUsed 1 0 (kernIdentityPhysEnd / 4096)) :=
  allocPages_default_first_fit (lowUsed_low 0 (by decide)) (Nat.le_refl 1) (by decide)

/-! ## Highmem -/

/-- What `alloc_pages(PMM_FLAGS_HIGHMEM, count)` does: when the zone has no window, the
address has wrapped and the search goes on from frame 0, and it never gives up. -/
inductive HighmemAnswer (framemap : FrameMap) (count : Nat) : Option (Nat × FrameMap) → Prop
  | zone {answer : Nat × FrameMap} :
      FirstFitFrames framemap count (kernIdentityPhysEnd / 4096) nFrames answer →
      HighmemAnswer framemap count (some answer)
  | wrapped {answer : Nat × FrameMap} :
      NoWindow framemap count (kernIdentityPhysEnd / 4096) nFrames →
      FirstFitFrames framemap count 1 nFrames answer →
      HighmemAnswer framemap count (some answer)
  | spins : NoWindow framemap count 1 nFrames → HighmemAnswer framemap count none

/-- A free range is a window. -/
theorem FreeRange.window (h : FreeRange framemap base count) :
    1 ≤ base / 4096 ∧ base / 4096 + count ≤ nFrames ∧
      Window (freeFrame framemap) count (base / 4096) := by
  have ha := h.aligned
  have hp := h.positive
  refine ⟨by omega, h.inside, fun g h₁ h₂ => ?_⟩
  rw [freeFrame, h.free g h₁ h₂]
  rfl

/-- After the wrap, frame 0 resets the counter and a second pass begins. -/
theorem allocPagesScan_wrapped (h0 : framemap.test 0 = true) (hc : 1 ≤ count)
    (hc' : count < 4294967296) :
    allocPagesScan framemap eom count (1 + (0xFFFFF + fuel)) run (wmul nFrames pageSize) =
      match scanRuns (freeFrame framemap) count 1 0 0xFFFFF with
      | .inl f => some (some (4096 * f))
      | .inr run' => allocPagesScan framemap eom count fuel run' (wmul nFrames pageSize) := by
  have hzero : wmul nFrames pageSize = 0 := rfl
  have hone : wadd 0 pageSize = wmul 1 pageSize := rfl
  have hdiv : 0 / 4096 = 0 := rfl
  have hpass := @allocPagesScan_pass framemap eom count 0 0xFFFFF 1 fuel hc' (by decide) hc
    (Nat.zero_le 1) (fun q hq => by simp only [eom]; omega)
  rw [hzero, Nat.add_comm 1, allocPagesScan, if_pos (by decide), testFrame_eq, hdiv, h0,
    if_neg (by decide), hone, hpass]
  rfl

theorem allocPages_highmem_answer (h0 : framemap.test 0 = true) (hc : 1 ≤ count)
    (hc' : count < 4294967296) :
    HighmemAnswer framemap count (allocPages framemap pmmFlagsHighmem count) := by
  have hflag : pmmFlagsHighmem &&& pmmFlagsHighmem ≠ 0 := by decide
  have hfirst := @allocPagesScan_pass framemap eom count 0 0xC8000 0x38000
    (1 + (0xFFFFF + (scanFuel - 0xC8000 - 0x100000))) hc' (by decide) hc (Nat.zero_le _)
    (fun q hq => by simp only [eom]; omega)
  have hend := scanRuns_end (RunBefore.start (freeFrame framemap) 0x38000 hc)
    (show 0x38000 + 0xC8000 = nFrames from rfl)
  have hfuel : 0xC8000 + (1 + (0xFFFFF + (scanFuel - 0xC8000 - 0x100000))) = scanFuel := by decide
  have hstart : wmul 0x38000 pageSize = kernIdentityPhysEnd := rfl
  rw [hfuel, hstart] at hfirst
  generalize scanRuns (freeFrame framemap) count 0x38000 0 0xC8000 = pass at hfirst hend
  simp only [allocPages, if_pos hflag]
  cases hend with
  | @found f hwin =>
    have hscan : allocPagesScan framemap eom count scanFuel 0 kernIdentityPhysEnd =
        some (some (4096 * f)) := hfirst
    simp only [hscan]
    exact .zone (.mark hwin (Nat.le_refl _))
  | @ended run hmissed =>
    have hsecond : allocPagesScan framemap eom count scanFuel 0 kernIdentityPhysEnd =
        allocPagesScan framemap eom count (1 + (0xFFFFF + (scanFuel - 0xC8000 - 0x100000))) run
          (wmul nFrames pageSize) := hfirst
    rw [allocPagesScan_wrapped h0 hc hc'] at hsecond
    have hend' := scanRuns_end (RunBefore.start (freeFrame framemap) 1 hc)
      (show 1 + 0xFFFFF = nFrames from rfl)
    generalize scanRuns (freeFrame framemap) count 1 0 0xFFFFF = pass' at hsecond hend'
    cases hend' with
    | @found f hwin =>
      have hscan : allocPagesScan framemap eom count scanFuel 0 kernIdentityPhysEnd =
          some (some (4096 * f)) := hsecond
      simp only [hscan]
      exact .wrapped hmissed.missed (.mark hwin (Nat.le_refl _))
    | ended hnone =>
      have hinv : ScanInv framemap 0 kernIdentityPhysEnd := ScanInv.start rfl (by decide)
      cases hscan : allocPagesScan framemap eom count scanFuel 0 kernIdentityPhysEnd with
      | none => exact .spins hnone.missed
      | some found =>
        cases found with
        | none => exact absurd hscan (allocPagesScan_highmem h0 _ _ _ hinv)
        | some base =>
          obtain ⟨h₁, h₂, h₃⟩ := (allocPagesScan_found h0 _ _ _ hinv hscan).2.window
          exact absurd h₃ (hnone.missed _ h₁ h₂)

/-- With all of highmem in use, a request of either kind is answered with the lowest window. -/
theorem allocPages_lowest {flags : PmmFlags} (hhigh : ∀ g, 0x38000 ≤ g → framemap.test g = true)
    (h0 : framemap.test 0 = true) (hflags : flags = pmmFlagsDefault ∨ flags = pmmFlagsHighmem)
    (hc : 1 ≤ count) (hf : f + count ≤ 0x38000) (hw : Window (freeFrame framemap) count f)
    (hno : ∀ g < f, ¬ Window (freeFrame framemap) count g) :
    ∃ framemap', allocPages framemap flags count = some (4096 * f, framemap') ∧
      ∀ g, framemap'.test g = (decide (f ≤ g ∧ g < f + count) || framemap.test g) := by
  have hused : ∀ {g}, framemap.test g = true → freeFrame framemap g = false := by
    intro g hg
    rw [freeFrame, hg]
    rfl
  have hpos : 1 ≤ f := by
    by_contra hlt
    have hzero := hw 0 (by omega) (by omega)
    rw [hused h0] at hzero
    cases hzero
  rcases hflags with rfl | rfl
  · obtain ⟨answer, hcall, hanswer⟩ := @allocPages_default_answer framemap count hc (by omega)
    cases hanswer with
    | refused hnone => exact absurd hw (hnone f (Nat.zero_le f) hf)
    | found hfit =>
      cases hfit with
      | @found f' framemap' hfirst hmark =>
        obtain rfl := hfirst.eq_lowest (Nat.zero_le f) hw fun g _ hg => hno g hg
        exact ⟨framemap', hcall, hmark⟩
  · have hanswer := allocPages_highmem_answer h0 hc (by omega)
    generalize hcall : allocPages framemap pmmFlagsHighmem count = answer at hanswer
    cases hanswer with
    | zone hfit =>
      cases hfit with
      | @found f' framemap' hfirst hmark =>
        have hstart := hfirst.window f' (Nat.le_refl f') (by omega)
        rw [hused (hhigh f' hfirst.above)] at hstart
        cases hstart
    | wrapped _ hfit =>
      cases hfit with
      | @found f' framemap' hfirst hmark =>
        obtain rfl := hfirst.eq_lowest hpos hw fun g _ hg => hno g hg
        exact ⟨framemap', rfl, hmark⟩
    | spins hnone => exact absurd hw (hnone f hpos (by simp only [nFrames]; omega))

/-! ## Zones used from the bottom up -/

/-- The frames in use are those below `lo` and those of highmem below `hi`. -/
def UsedTo (framemap : FrameMap) (lo hi : Nat) : Prop :=
  ∀ f, framemap.test f = decide (f < lo ∨ 0x38000 ≤ f ∧ f < hi)

section UsedTo

variable {lo hi : Nat}

theorem UsedTo.window (h : UsedTo framemap lo hi) (hf : lo ≤ f)
    (hzone : f + count ≤ 0x38000 ∨ hi ≤ f) : Window (freeFrame framemap) count f := by
  intro g h₁ h₂
  rw [freeFrame, h g, decide_eq_false (by omega)]
  rfl

theorem UsedTo.mark (h : UsedTo framemap lo hi) {lo' hi' : Nat}
    (hmark : ∀ g, framemap'.test g = (decide (f ≤ g ∧ g < f + count) || framemap.test g))
    (hrange : ∀ g, (f ≤ g ∧ g < f + count) ∨ (g < lo ∨ 0x38000 ≤ g ∧ g < hi) ↔
      g < lo' ∨ 0x38000 ≤ g ∧ g < hi') : UsedTo framemap' lo' hi' := by
  intro g
  rw [hmark, h g, ← Bool.decide_or, decide_eq_decide]
  exact hrange g

/-- A default request takes the frames from `lo` on. -/
theorem UsedTo.default (h : UsedTo framemap lo hi) (hlo : 1 ≤ lo) (hc : 1 ≤ count)
    (hroom : lo + count ≤ 0x38000) :
    ∃ framemap', allocPages framemap pmmFlagsDefault count = some (4096 * lo, framemap') ∧
      UsedTo framemap' (lo + count) hi := by
  have h0 : framemap.test 0 = true := by
    rw [h 0]
    exact decide_eq_true (by omega)
  have hwin : Window (freeFrame framemap) count lo := h.window (Nat.le_refl lo) (Or.inl hroom)
  obtain ⟨answer, hcall, hanswer⟩ := allocPages_default_answer hc (by omega)
  cases hanswer with
  | refused hno => exact absurd hwin (hno lo (Nat.zero_le lo) hroom)
  | found hfit =>
    cases hfit with
    | @found f framemap' hfirst hmark =>
      obtain rfl : f = lo := by
        refine hfirst.eq_bottom hc (fun g _ hg => ?_) (Nat.zero_le lo) hwin
        rw [freeFrame, h g, decide_eq_true (Or.inl hg)]
        rfl
      exact ⟨framemap', hcall, h.mark hmark fun g => by omega⟩

/-- A highmem request takes the frames from `hi` on. -/
theorem UsedTo.highmem (h : UsedTo framemap lo hi) (hlo : 1 ≤ lo) (hlo' : lo ≤ 0x38000)
    (hhi : 0x38000 ≤ hi) (hc : 1 ≤ count) (hroom : hi + count ≤ nFrames) :
    ∃ framemap', allocPages framemap pmmFlagsHighmem count = some (4096 * hi, framemap') ∧
      UsedTo framemap' lo (hi + count) := by
  have h0 : framemap.test 0 = true := by
    rw [h 0]
    exact decide_eq_true (by omega)
  have hwin : Window (freeFrame framemap) count hi := h.window (by omega) (Or.inr (Nat.le_refl hi))
  have hanswer := allocPages_highmem_answer h0 hc (by simp only [nFrames] at hroom; omega)
  generalize hcall : allocPages framemap pmmFlagsHighmem count = answer at hanswer
  cases hanswer with
  | zone hfit =>
    cases hfit with
    | @found f framemap' hfirst hmark =>
      obtain rfl : f = hi := by
        refine hfirst.eq_bottom hc (fun g hg hg' => ?_) hhi hwin
        rw [freeFrame, h g, decide_eq_true (Or.inr ⟨hg, hg'⟩)]
        rfl
      exact ⟨framemap', rfl, h.mark hmark fun g => by omega⟩
  | wrapped hno _ => exact absurd hwin (hno hi hhi hroom)
  | spins hno => exact absurd hwin (hno hi (by omega) hroom)

end UsedTo

/-! ## When a highmem request is honoured -/

/-- A highmem request ends, hands out nothing below 896 MiB, and reports failure with the
bitmap as it was when the zone has no window. -/
def HighmemHonoured (framemap : FrameMap) (count : Nat) : Prop :=
  ∃ base framemap', allocPages framemap pmmFlagsHighmem count = some (base, framemap') ∧
    (base ≠ 0 → kernIdentityPhysEnd ≤ base ∧ base + count * 4096 ≤ 4294967296) ∧
    (NoWindow framemap count (kernIdentityPhysEnd / 4096) nFrames → base = 0 ∧ framemap' = framemap)

theorem not_highmemHonoured (h0 : framemap.test 0 = true)
    (hno : NoWindow framemap count (kernIdentityPhysEnd / 4096) nFrames) :
    ¬ HighmemHonoured framemap count := by
  rintro ⟨base, framemap', hcall, -, hfail⟩
  exact allocPages_highmem_ne_zero h0 hcall (hfail hno).1

/-- Highmem requests are honoured exactly when highmem has a window of free frames. -/
theorem highmem_honoured_iff (hfirst : ∀ f < 1024, framemap.test f = true) (hc : 1 ≤ count)
    (hc' : count < 4294967296) :
    HighmemHonoured framemap count ↔ ∃ f, kernIdentityPhysEnd / 4096 ≤ f ∧ f + count ≤ nFrames ∧
      Window (freeFrame framemap) count f := by
  have h0 := hfirst 0 (by decide)
  constructor
  · intro h
    by_contra hno
    refine not_highmemHonoured h0 (fun f h₁ h₂ hw => hno ⟨f, h₁, h₂, hw⟩) h
  · rintro ⟨f, h₁, h₂, hw⟩
    have hcall := allocPages_highmem_answer h0 hc hc'
    generalize hres : allocPages framemap pmmFlagsHighmem count = result at hcall
    cases hcall with
    | zone hfit =>
      cases hfit with
      | found hwin hmark =>
        refine ⟨_, _, hres, fun _ => ?_, fun hno => absurd hw (hno f h₁ h₂)⟩
        have hlo := hwin.above
        have hhi := hwin.below
        simp only [kernIdentityPhysEnd, nFrames] at hlo hhi
        simp only [kernIdentityPhysEnd]
        omega
    | wrapped hno _ => exact absurd hw (hno f h₁ h₂)
    | spins hno =>
      have hpos : 1 ≤ f := Nat.le_trans (by decide) h₁
      exact absurd hw (hno f hpos h₂)

/-- One page is free at the bottom of highmem when only the first 4 MiB are used. -/
theorem highmem_honoured_lowUsed : HighmemHonoured lowUsed 1 := by
  apply (highmem_honoured_iff lowUsed_low (Nat.le_refl 1) (by decide)).mpr
  refine ⟨0x38000, by decide, by decide, fun g h₁ h₂ => ?_⟩
  obtain rfl : g = 0x38000 := by omega
  decide

/-- A machine that uses its first 4 MiB and all of highmem. -/
def highmemFull : FrameMap := fun i => if i < 128 ∨ 0x7000 ≤ i then 0xFF else 0

theorem highmemFull_test (f : Nat) :
    highmemFull.test f = decide (f < 1024 ∨ 0x38000 ≤ f) := by
  have hbit : ∀ k < 8, (0xFF : BitVec 8).getLsbD k = true := by decide
  unfold Bitmap.test highmemFull
  by_cases h : f / 8 < 128 ∨ 0x7000 ≤ f / 8
  · rw [if_pos h, hbit _ (Nat.mod_lt _ (by decide)), decide_eq_true (by omega)]
  · rw [if_neg h, decide_eq_false (by omega)]
    exact BitVec.getLsbD_zero

theorem highmemFull_noWindow :
    NoWindow highmemFull 1 (kernIdentityPhysEnd / 4096) nFrames := by
  intro f h₁ _ hw
  simp only [kernIdentityPhysEnd] at h₁
  have hfree := hw f (Nat.le_refl f) (Nat.lt_succ_self f)
  rw [freeFrame, highmemFull_test, decide_eq_true (by omega)] at hfree
  cases hfree

/-- With highmem full, a highmem request is answered with the frame at 4 MiB. -/
theorem highmem_wraps_into_lowmem :
    (∃ framemap', allocPages highmemFull pmmFlagsHighmem 1 = some (0x400000, framemap')) ∧
      ¬ HighmemHonoured highmemFull 1 := by
  have h0 : highmemFull.test 0 = true := rfl
  refine ⟨?_, not_highmemHonoured h0 highmemFull_noWindow⟩
  have hused : ∀ g, g < 1024 ∨ 0x38000 ≤ g → highmemFull.test g = true := by
    intro g hg
    rw [highmemFull_test, decide_eq_true hg]
  have hfree : Window (freeFrame highmemFull) 1 1024 := by
    intro g h₁ h₂
    rw [freeFrame, highmemFull_test, decide_eq_false (by omega)]
    rfl
  have hlowest : ∀ g < 1024, ¬ Window (freeFrame highmemFull) 1 g := by
    intro g hg hw
    have hstart := hw g (Nat.le_refl g) (Nat.lt_succ_self g)
    rw [freeFrame, hused g (Or.inl hg)] at hstart
    cases hstart
  obtain ⟨framemap', hcall, -⟩ := allocPages_lowest (fun g hg => hused g (Or.inr hg)) h0 (Or.inr rfl)
    (Nat.le_refl 1) (by decide) hfree hlowest
  exact ⟨framemap', hcall⟩

end BrownieOS.Mm
