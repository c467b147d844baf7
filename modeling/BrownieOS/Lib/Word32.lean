/-!
# 32-bit machine arithmetic on natural numbers

Unsigned 32-bit values are natural numbers below `2 ^ 32`; the operations wrap.
-/
namespace BrownieOS.Lib.Word32

/-- Wrapping addition. -/
def wadd (a b : Nat) : Nat := (a + b) % 4294967296

/-- Wrapping subtraction. -/
def wsub (a b : Nat) : Nat := (a + (4294967296 - b % 4294967296)) % 4294967296

/-- Wrapping multiplication. -/
def wmul (a b : Nat) : Nat := a * b % 4294967296

theorem wadd_lt (a b : Nat) : wadd a b < 4294967296 := Nat.mod_lt _ (by decide)

theorem wsub_lt (a b : Nat) : wsub a b < 4294967296 := Nat.mod_lt _ (by decide)

theorem wadd_of_lt {a b : Nat} (h : a + b < 4294967296) : wadd a b = a + b := Nat.mod_eq_of_lt h

theorem wmul_of_lt {a b : Nat} (h : a * b < 4294967296) : wmul a b = a * b := Nat.mod_eq_of_lt h

theorem wsub_of_le {a b : Nat} (h : b ≤ a) (ha : a < 4294967296) : wsub a b = a - b := by
  unfold wsub
  omega

end BrownieOS.Lib.Word32
