import BrownieOS.Lib.Ledger
import BrownieOS.Lib.Run
import BrownieOS.Mm.Frames

/-!
# Exclusive frames over whole runs

Callers take frames with `alloc_pages` and give them back with `free_pages`, in
any order. The state is the bitmap and the list of live allocations, which the
code does not keep; the ledger of `BrownieOS.Lib` accounts for every frame.
-/
namespace BrownieOS.Mm

open BrownieOS.Lib

/-- The frames of the allocation of `count` pages at physical address `base`. -/
def framesOf (base count : Nat) : Range := ⟨pageFrame base, count⟩

/-- The bitmap, and what callers hold. -/
structure PmmState where
  framemap : FrameMap
  live : List Range

inductive PmmCall where
  | allocPages (flags : PmmFlags) (count : Nat)
  | freePages (base count : Nat)

/-- One call that returns. A live allocation is freed by its base and count. -/
inductive PmmStep : PmmState → PmmCall → PmmState → Prop
  | alloc {s : PmmState} {flags : PmmFlags} {count base : Nat} {framemap' : FrameMap} :
      1 ≤ count → allocPages s.framemap flags count = some (base, framemap') → base ≠ 0 →
      PmmStep s (.allocPages flags count) ⟨framemap', framesOf base count :: s.live⟩
  | allocFailed {s : PmmState} {flags : PmmFlags} {count : Nat} {framemap' : FrameMap} :
      1 ≤ count → allocPages s.framemap flags count = some (0, framemap') →
      PmmStep s (.allocPages flags count) ⟨framemap', s.live⟩
  | free {s : PmmState} {base count : Nat} : framesOf base count ∈ s.live →
      PmmStep s (.freePages base count)
        ⟨freePages s.framemap (pageFrame base) count, s.live.erase (framesOf base count)⟩

/-- The run invariant: the ledger is exact and live ranges are real frames. -/
structure PmmInv (first : FrameMap) (s : PmmState) : Prop where
  accounts : Accounts first s.framemap s.live
  inside : ∀ r ∈ s.live, r.base + r.count ≤ nFrames ∧ 0 < r.count

theorem PmmInv.frame_zero {first : FrameMap} {s : PmmState} (h0 : first.test 0 = true)
    (hi : PmmInv first s) : s.framemap.test 0 = true :=
  (hi.accounts.exact 0).mpr (Or.inl h0)

theorem pmmStep_inv {first : FrameMap} (h0 : first.test 0 = true) {s s' : PmmState} {c : PmmCall}
    (hi : PmmInv first s) (hs : PmmStep s c s') : PmmInv first s' := by
  have hz := hi.frame_zero h0
  cases hs with
  | @alloc flags count base framemap' hc h hb =>
    have ha := allocPages_allocated hz h hb
    refine ⟨?_, ?_⟩
    · rw [ha.marked]
      exact hi.accounts.take (r := framesOf base count) (by decide) fun f hf => ha.free f hf.1 hf.2
    · intro r hr
      rcases List.mem_cons.mp hr with rfl | hr
      · exact ⟨ha.inside, hc⟩
      · exact hi.inside r hr
  | allocFailed hc h =>
    rcases allocPages_cases hz h with ⟨-, he⟩ | ha
    · rw [he]
      exact ⟨hi.accounts, hi.inside⟩
    · exact absurd ha.positive (Nat.lt_irrefl 0)
  | @free base count hmem =>
    obtain ⟨hin, hc⟩ := hi.inside _ hmem
    have hfree : freePages s.framemap (pageFrame base) count =
        s.framemap.clearRange (framesOf base count).base (framesOf base count).count :=
      freePages_eq s.framemap hin hc
    refine ⟨?_, fun r hr => hi.inside r (List.mem_of_mem_erase hr)⟩
    rw [hfree]
    exact hi.accounts.give (by decide) hmem

theorem pmmRun_inv {first : FrameMap} (h0 : first.test 0 = true) {calls : List PmmCall}
    {s : PmmState} (hrun : Run PmmStep ⟨first, []⟩ calls s) : PmmInv first s :=
  hrun.invariant (fun _ _ _ => pmmStep_inv h0) ⟨Accounts.start first, by simp⟩

/-- Giving back what was just allocated restores the bitmap bit for bit. -/
theorem freePages_allocPages {framemap framemap' : FrameMap} {flags : PmmFlags} {count base : Nat}
    (h0 : framemap.test 0 = true) (hc : 1 ≤ count)
    (h : allocPages framemap flags count = some (base, framemap')) (hb : base ≠ 0) :
    freePages framemap' (pageFrame base) count = framemap := by
  have ha := allocPages_allocated h0 h hb
  have hin : pageFrame base + count ≤ nFrames := ha.inside
  rw [freePages_eq framemap' hin hc, ha.marked]
  exact Bitmap.clearRange_setRange (by decide) fun f h₁ h₂ => ha.free f h₁ h₂

/-- Frame exclusivity. From any bitmap with the first 4 MiB used, after any run of
calls: live ranges are pairwise disjoint and disjoint from the frames used at
first, the used frames are exactly those two kinds, and an allocation followed by
its release is the identity on the bitmap. -/
theorem frames_exclusive {first : FrameMap} (hlow : ∀ f < 1024, first.test f = true)
    {calls : List PmmCall} {s : PmmState} (hrun : Run PmmStep ⟨first, []⟩ calls s) :
    s.live.Pairwise Range.Disjoint ∧
    (∀ r ∈ s.live, ∀ f, r.Mem f → first.test f = false) ∧
    (∀ f, s.framemap.test f = true ↔ first.test f = true ∨ ∃ r ∈ s.live, r.Mem f) ∧
    (∀ (flags : PmmFlags) (count base : Nat) (framemap' : FrameMap), 1 ≤ count →
      allocPages s.framemap flags count = some (base, framemap') → base ≠ 0 →
      freePages framemap' (pageFrame base) count = s.framemap) := by
  have h0 := hlow 0 (by decide)
  have hi := pmmRun_inv h0 hrun
  refine ⟨hi.accounts.apart, hi.accounts.fresh, hi.accounts.exact, ?_⟩
  intro flags count base framemap' hc h hb
  exact freePages_allocPages (hi.frame_zero h0) hc h hb

/-- A bitmap whose cells are full or empty. -/
theorem test_full (p : Nat → Prop) [DecidablePred p] (f : Nat) :
    Bitmap.test (fun cell => if p cell then 0xFF#8 else 0#8) f = decide (p (f / 8)) := by
  unfold Bitmap.test
  dsimp only
  split
  · rename_i hp
    have hbit : ∀ b < 8, (0xFF#8).getLsbD b = true := by decide
    rw [hbit _ (Nat.mod_lt _ (by decide)), decide_eq_true hp]
  · rename_i hp
    rw [BitVec.getLsbD_zero, decide_eq_false hp]

/-- The bitmap of a machine that uses exactly its first 4 MiB. -/
def lowUsed : FrameMap := fun cell => if cell < 128 then 0xFF#8 else 0#8

theorem lowUsed_low : ∀ f < 1024, lowUsed.test f = true := by
  intro f hf
  exact (test_full (· < 128) f).trans (decide_eq_true (by omega))

/-- A call whose scan finds its pages. -/
theorem PmmStep.found (framemap : FrameMap) (live : List Range) (flags : PmmFlags)
    (count base : Nat) (hc : 1 ≤ count) (hbase : base ≠ 0)
    (h : allocPagesScan framemap (if flags &&& pmmFlagsHighmem ≠ 0 then eom else kernIdentityPhysEnd)
      count scanFuel 0 (if flags &&& pmmFlagsHighmem ≠ 0 then kernIdentityPhysEnd else 0) =
        some (some base)) :
    PmmStep ⟨framemap, live⟩ (.allocPages flags count)
      ⟨markFrames framemap base count, framesOf base count :: live⟩ := by
  refine .alloc hc ?_ hbase
  rw [allocPages, h]

/-- Two highmem pages are taken and then one more, the two are given back, and three pages
of low memory are taken. -/
theorem frames_exclusive_two_live : ∃ s : PmmState,
    Run PmmStep ⟨lowUsed, []⟩
      [.allocPages pmmFlagsHighmem 2, .allocPages pmmFlagsHighmem 1,
        .freePages kernIdentityPhysEnd 2, .allocPages pmmFlagsDefault 3] s ∧
      s.live = [framesOf 0x400000 3, framesOf 0x38002000 1] ∧
      s.live.Pairwise Range.Disjoint ∧ (∀ r ∈ s.live, ∀ f, r.Mem f → lowUsed.test f = false) ∧
      ∀ f, s.framemap.test f = true ↔ lowUsed.test f = true ∨ ∃ r ∈ s.live, r.Mem f := by
  let two := markFrames lowUsed kernIdentityPhysEnd 2
  let three := markFrames two 0x38002000 1
  let one := freePages three (pageFrame kernIdentityPhysEnd) 2
  have hfirst := PmmStep.found lowUsed [] pmmFlagsHighmem 2 kernIdentityPhysEnd
    (by decide) (by decide) (by decide +kernel)
  have hsecond := PmmStep.found two [framesOf kernIdentityPhysEnd 2] pmmFlagsHighmem 1 0x38002000
    (by decide) (by decide) (by decide +kernel)
  have hback : PmmStep ⟨three, [framesOf 0x38002000 1, framesOf kernIdentityPhysEnd 2]⟩
      (.freePages kernIdentityPhysEnd 2) ⟨one, [framesOf 0x38002000 1]⟩ := .free (by decide)
  have hlow := PmmStep.found one [framesOf 0x38002000 1] pmmFlagsDefault 3 0x400000
    (by decide) (by decide) (by decide +kernel)
  have hrun := (((Run.single hfirst).snoc hsecond).snoc hback).snoc hlow
  have h := frames_exclusive lowUsed_low hrun
  exact ⟨_, hrun, rfl, h.1, h.2.1, h.2.2.1⟩

end BrownieOS.Mm
