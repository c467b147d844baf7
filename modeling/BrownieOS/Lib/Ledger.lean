import BrownieOS.Lib.Bitmap
import Mathlib.Data.List.Perm.Basic

/-!
# A ledger of ranges over a bitmap

An allocator that hands out ranges of a bitmap is accounted for by the list of
ranges handed out and not given back. `Accounts` says that this list and the
initial bitmap explain every bit; taking a free range and giving one back keep it.
-/
namespace BrownieOS.Lib

/-- The `count` numbers from `base` on. -/
structure Range where
  base : Nat
  count : Nat
  deriving DecidableEq

namespace Range

variable {r q : Range} {j : Nat}

/-- Number `j` lies in the range. -/
def Mem (r : Range) (j : Nat) : Prop := r.base ≤ j ∧ j < r.base + r.count

instance : Decidable (r.Mem j) := inferInstanceAs (Decidable (_ ∧ _))

/-- No number lies in both ranges. -/
def Disjoint (r q : Range) : Prop := ∀ j, r.Mem j → ¬ q.Mem j

theorem Disjoint.symm (h : r.Disjoint q) : q.Disjoint r := fun j hq hr => h j hr hq

end Range

/-- The live ranges are pairwise disjoint, were clear in the first bitmap, and
together with it explain every bit of the present one. -/
structure Accounts {w : Nat} (first now : Bitmap w) (live : List Range) : Prop where
  apart : live.Pairwise Range.Disjoint
  fresh : ∀ r ∈ live, ∀ j, r.Mem j → first.test j = false
  exact : ∀ j, now.test j = true ↔ first.test j = true ∨ ∃ r ∈ live, r.Mem j

namespace Accounts

variable {w : Nat} {first now : Bitmap w} {live : List Range} {r : Range}

theorem start (first : Bitmap w) : Accounts first first [] where
  apart := List.Pairwise.nil
  fresh := by simp
  exact := by simp

/-- Taking a range that is clear now. -/
theorem take (hw : 0 < w) (h : Accounts first now live)
    (hfree : ∀ j, r.Mem j → now.test j = false) :
    Accounts first (now.setRange r.base r.count) (r :: live) where
  apart := by
    refine List.Pairwise.cons (fun q hq j hr hj => ?_) h.apart
    have hused := (h.exact j).mpr (Or.inr ⟨q, hq, hj⟩)
    simp [hfree j hr] at hused
  fresh := by
    intro q hq j hj
    rcases List.mem_cons.mp hq with rfl | hq
    · by_contra hc
      have hused := (h.exact j).mpr (Or.inl (by simpa using hc))
      simp [hfree j hj] at hused
    · exact h.fresh q hq j hj
  exact := by
    intro j
    have hj := h.exact j
    rw [Bitmap.test_setRange hw, Bool.or_eq_true, decide_eq_true_eq, hj]
    simp only [List.mem_cons, exists_eq_or_imp, Range.Mem]
    tauto

/-- Giving a live range back. -/
theorem give (hw : 0 < w) (h : Accounts first now live) (hr : r ∈ live) :
    Accounts first (now.clearRange r.base r.count) (live.erase r) where
  apart := h.apart.sublist List.erase_sublist
  fresh := fun q hq => h.fresh q (List.mem_of_mem_erase hq)
  exact := by
    intro j
    have hperm : live.Perm (r :: live.erase r) := List.perm_cons_erase hr
    have hpair := (hperm.pairwise_iff (fun h => Range.Disjoint.symm h)).mp h.apart
    have hrest := (List.pairwise_cons.mp hpair).1
    have hj := h.exact j
    rw [Bitmap.test_clearRange hw, Bool.and_eq_true, hj]
    have hmem : (∃ q ∈ live, q.Mem j) ↔ r.Mem j ∨ ∃ q ∈ live.erase r, q.Mem j := by
      simp only [hperm.mem_iff, List.mem_cons, exists_eq_or_imp]
    rw [hmem]
    by_cases hin : r.Mem j
    · have hfirst := h.fresh r hr j hin
      have hnone : ¬ ∃ q ∈ live.erase r, q.Mem j := fun ⟨q, hq, hqj⟩ => hrest q hq j hin hqj
      have hin' : r.base ≤ j ∧ j < r.base + r.count := hin
      simp [hfirst, hnone, hin']
    · have hin' : ¬ (r.base ≤ j ∧ j < r.base + r.count) := hin
      simp only [hin', decide_false, Bool.not_false, true_and, hin, false_or]

end Accounts

end BrownieOS.Lib
