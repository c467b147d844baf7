import BrownieOS.LibC.Itoa

/-!
# Comparing byte strings

`strncmp` compares bytes, not strings: it does not stop at a NUL. A pointer is given as
the bytes that stand from it on.
-/
namespace BrownieOS.LibC

open BrownieOS.Lib

/-- A string literal, with zeros behind it. -/
def literal (s : String) : Nat → Byte := Mem.ofBytes (s.toList.map ch)

/-- The loop of `strncmp`, with `n` bytes left from `i` on. -/
def strncmpLoop (a b : Nat → Byte) : Nat → Nat → Int
  | _, 0 => 0
  | i, n + 1 => if a i < b i then -1 else if b i < a i then 1 else strncmpLoop a b (i + 1) n

def strncmp (a b : Nat → Byte) (size : Nat) : Int := strncmpLoop a b 0 size

variable {a b : Nat → Byte} {i n : Nat}

theorem strncmpLoop_eq_zero_iff :
    strncmpLoop a b i n = 0 ↔ ∀ k, i ≤ k → k < i + n → a k = b k := by
  induction n generalizing i with
  | zero => exact ⟨fun _ k h₁ h₂ => absurd h₂ (by omega), fun _ => rfl⟩
  | succ n ih =>
    rw [strncmpLoop]
    by_cases hlt : a i < b i
    · have hne : a i ≠ b i := fun he => BitVec.lt_irrefl _ (he ▸ hlt)
      rw [if_pos hlt]
      exact ⟨fun h => absurd h (by decide), fun h => absurd (h i (Nat.le_refl i) (by omega)) hne⟩
    by_cases hgt : b i < a i
    · have hne : a i ≠ b i := fun he => BitVec.lt_irrefl _ (he ▸ hgt)
      rw [if_neg hlt, if_pos hgt]
      exact ⟨fun h => absurd h (by decide), fun h => absurd (h i (Nat.le_refl i) (by omega)) hne⟩
    · have heq : a i = b i :=
        BitVec.le_antisymm (BitVec.not_lt.1 hgt) (BitVec.not_lt.1 hlt)
      rw [if_neg hlt, if_neg hgt, ih]
      constructor
      · intro h k h₁ h₂
        by_cases hk : k = i
        · rw [hk]
          exact heq
        · exact h k (by omega) (by omega)
      · exact fun h k h₁ h₂ => h k (by omega) (by omega)

/-- `strncmp` answers 0 exactly for equal bytes. -/
theorem strncmp_eq_zero_iff : strncmp a b n = 0 ↔ ∀ k < n, a k = b k := by
  rw [strncmp, strncmpLoop_eq_zero_iff]
  exact ⟨fun h k hk => h k (Nat.zero_le k) (by omega), fun h k _ hk => h k (by omega)⟩

end BrownieOS.LibC
