import Mathlib.Logic.Function.Basic

/-!
# Bitmaps over machine cells

A set of natural numbers stored one bit each in cells of `w` bits: number `i`
is bit `i % w` of cell `i / w`. Setting and clearing are the usual mask
operations on one cell; the set view is what the clients reason with.
-/
namespace BrownieOS.Lib

/-- A bitmap in cells of `w` bits. -/
abbrev Bitmap (w : Nat) := Nat → BitVec w

namespace Bitmap

variable {w : Nat}

/-- Is number `i` in the bitmap? -/
def test (b : Bitmap w) (i : Nat) : Bool := (b (i / w)).getLsbD (i % w)

/-- Add number `i`. -/
def set (b : Bitmap w) (i : Nat) : Bitmap w :=
  Function.update b (i / w) (b (i / w) ||| (1#w <<< (i % w)))

/-- Remove number `i`. -/
def clear (b : Bitmap w) (i : Nat) : Bitmap w :=
  Function.update b (i / w) (b (i / w) &&& ~~~(1#w <<< (i % w)))

theorem getLsbD_one_shiftLeft {k j : Nat} (hj : j < w) :
    (1#w <<< k).getLsbD j = decide (k = j) := by
  rw [← BitVec.twoPow_eq, BitVec.getLsbD_twoPow]
  by_cases h : k = j
  · subst h; simp [hj]
  · simp [h]

/-- The mask of one bit meets a cell exactly when that bit is set. -/
theorem and_mask_ne_zero {x : BitVec w} {k : Nat} (hk : k < w) :
    (x &&& (1#w <<< k) ≠ 0#w) ↔ x.getLsbD k = true := by
  rw [← BitVec.twoPow_eq, BitVec.and_twoPow]
  cases hx : x.getLsbD k with
  | false => simp
  | true =>
    simp only [↓reduceIte, ne_eq, iff_true]
    intro h
    have hbit := congrArg (fun y : BitVec w => y.getLsbD k) h
    simp [hk] at hbit

/-- Numbers sharing a cell and a bit are equal. -/
private theorem eq_of_div_mod {i j : Nat} (hd : i / w = j / w) (hm : i % w = j % w) : i = j := by
  rw [← Nat.div_add_mod i w, ← Nat.div_add_mod j w, hd, hm]

@[simp] theorem test_set (hw : 0 < w) (b : Bitmap w) (i j : Nat) :
    (b.set i).test j = (decide (i = j) || b.test j) := by
  have hlt := Nat.mod_lt j hw
  by_cases hd : j / w = i / w
  · have hcell : (b.set i) (j / w) = b (j / w) ||| (1#w <<< (i % w)) := by
      simp [set, hd]
    have hiff : i % w = j % w ↔ i = j :=
      ⟨fun h => eq_of_div_mod hd.symm h, fun h => by rw [h]⟩
    rw [test, hcell, BitVec.getLsbD_or, getLsbD_one_shiftLeft hlt, test, Bool.or_comm]
    simp only [hiff]
  · have hne : i ≠ j := fun h => hd (by rw [h])
    simp [test, set, Function.update_of_ne hd, hne]

@[simp] theorem test_clear (hw : 0 < w) (b : Bitmap w) (i j : Nat) :
    (b.clear i).test j = (!decide (i = j) && b.test j) := by
  have hlt := Nat.mod_lt j hw
  by_cases hd : j / w = i / w
  · have hcell : (b.clear i) (j / w) = b (j / w) &&& ~~~(1#w <<< (i % w)) := by
      simp [clear, hd]
    have hiff : i % w = j % w ↔ i = j :=
      ⟨fun h => eq_of_div_mod hd.symm h, fun h => by rw [h]⟩
    rw [test, hcell, BitVec.getLsbD_and, BitVec.getLsbD_not, getLsbD_one_shiftLeft hlt, test,
      Bool.and_comm]
    simp only [hiff, hlt, decide_true, Bool.true_and]
  · have hne : i ≠ j := fun h => hd (by rw [h])
    simp [test, clear, Function.update_of_ne hd, hne]

/-- A bitmap is determined by the numbers it contains. -/
theorem ext_test (hw : 0 < w) {b c : Bitmap w} (h : ∀ i, b.test i = c.test i) : b = c := by
  funext n
  apply BitVec.eq_of_getLsbD_eq
  intro k hk
  have hi := h (w * n + k)
  simpa [test, Nat.mul_add_div hw, Nat.div_eq_of_lt hk, Nat.mul_add_mod, Nat.mod_eq_of_lt hk] using hi

/-- Add the `count` numbers from `base` on, lowest first. -/
def setRange (b : Bitmap w) (base : Nat) : Nat → Bitmap w
  | 0 => b
  | count + 1 => (setRange b base count).set (base + count)

/-- Remove the `count` numbers from `base` on, lowest first. -/
def clearRange (b : Bitmap w) (base : Nat) : Nat → Bitmap w
  | 0 => b
  | count + 1 => (clearRange b base count).clear (base + count)

theorem test_setRange (hw : 0 < w) (b : Bitmap w) (base count j : Nat) :
    (b.setRange base count).test j = (decide (base ≤ j ∧ j < base + count) || b.test j) := by
  induction count with
  | zero => simp [setRange, show ¬ (base ≤ j ∧ j < base) by omega]
  | succ count ih =>
    rw [setRange, test_set hw, ih, ← Bool.or_assoc, ← Bool.decide_or]
    congr 2
    apply propext
    omega

theorem test_clearRange (hw : 0 < w) (b : Bitmap w) (base count j : Nat) :
    (b.clearRange base count).test j = (!decide (base ≤ j ∧ j < base + count) && b.test j) := by
  induction count with
  | zero => simp [clearRange, show ¬ (base ≤ j ∧ j < base) by omega]
  | succ count ih =>
    rw [clearRange, test_clear hw, ih, ← Bool.and_assoc, ← decide_not, ← decide_not, ← decide_not,
      ← Bool.decide_and]
    congr 2
    apply propext
    omega

/-- Removing a range that was added to a bitmap holding none of it gives the bitmap back. -/
theorem clearRange_setRange (hw : 0 < w) {b : Bitmap w} {base count : Nat}
    (h : ∀ j, base ≤ j → j < base + count → b.test j = false) :
    (b.setRange base count).clearRange base count = b := by
  apply ext_test hw
  intro j
  rw [test_clearRange hw, test_setRange hw]
  by_cases hj : base ≤ j ∧ j < base + count
  · simp [hj, h j hj.1 hj.2]
  · simp [hj]

end Bitmap

end BrownieOS.Lib
