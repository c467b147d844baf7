import BrownieOS.Lib.ByteMemory
import Mathlib.Data.Nat.Digits.Lemmas

/-!
# The number texts of `printf.c`

`itoa` and its siblings are one loop over a table that is symmetric about its middle,
followed by a reversal of the whole text, so the sign comes last. `numeral` says which
text that is.
-/
namespace BrownieOS.LibC

open BrownieOS.Lib

def ch (c : Char) : Byte := BitVec.ofNat 8 c.toNat

/-- The `chars` table: remainders from -35 to 35. -/
def chars : List Byte :=
  "zyxwvutsrqponmlkjihgfedcba9876543210123456789abcdefghijklmnopqrstuvwxyz".toList.map ch

/-- `chars[35+r]`. -/
def digitChar (r : Int) : Byte := chars.getD (35 + r).toNat 0

/-- The `do .. while(i)` loop. Its characters come least significant first. -/
def digitLoop (base : Int) : Nat → Int → List Byte
  | 0, _ => []
  | fuel + 1, i =>
    let c := digitChar (i.tmod base)
    let i := i.tdiv base
    if i = 0 then [c] else c :: digitLoop base fuel i

/-- The body the signed conversions share. A 64-bit value has at most 64 digits. -/
def ntoa (i base : Int) : List Byte :=
  if base < 2 ∨ 36 < base then []
  else
    let sign := if i < 0 ∧ base = 10 then [ch '-'] else []
    (sign ++ digitLoop base 64 i).reverse

/-- The body of the unsigned ones, which look for no sign. -/
def untoa (n : Nat) (base : Int) : List Byte :=
  if base < 2 ∨ 36 < base then [] else (digitLoop base 64 n).reverse

def itoa (i : BitVec 32) (base : Int) : List Byte := ntoa i.toInt base

def utoa (i : BitVec 32) (base : Int) : List Byte := untoa i.toNat base

def lltoa (i : BitVec 64) (base : Int) : List Byte := ntoa i.toInt base

def ulltoa (i : BitVec 64) (base : Int) : List Byte := untoa i.toNat base

example : itoa (-12) 10 = [ch '1', ch '2', ch '-'] := by decide

/-! ## Numerals -/

/-- The digits of `n`, most significant first, and one digit for zero. -/
def numeral (base n : Nat) : List Byte :=
  if n = 0 then [digitChar 0] else ((base.digits n).map fun d : Nat => digitChar d).reverse

variable {base n m : Nat}

theorem digitChar_neg (h : n < 36) : digitChar (-n) = digitChar n := by
  revert n
  decide

/-- No digit is a sign, a `%` or the character that reads as `EOF`. -/
theorem digitChar_plain (h : n < 36) :
    digitChar n ≠ ch '-' ∧ digitChar n ≠ ch '%' ∧ digitChar n ≠ 0xFF := by
  revert n
  decide

theorem digitChar_toNat (h : n < 10) : (digitChar n).toNat - 48 = n := by
  revert n
  decide

/-- One turn of the loop on a value of either sign, as it goes on naturals. -/
theorem digitLoop_digits (hb : 2 ≤ base) (hb' : base ≤ 36) (fuel : Nat) (i : Int) :
    i ≠ 0 → i.natAbs < base ^ fuel →
      digitLoop base fuel i = (base.digits i.natAbs).map fun d : Nat => digitChar d := by
  induction fuel generalizing i with
  | zero =>
    intro h0 hlt
    rw [pow_zero] at hlt
    omega
  | succ fuel ih =>
    intro h0 hlt
    have hr : i.natAbs % base < 36 := lt_of_lt_of_le (Nat.mod_lt _ (by omega)) hb'
    have hc : digitChar (i.tmod base) = digitChar ((i.natAbs % base : Nat) : Int) := by
      rcases Int.natAbs_eq i with hi | hi
      · rw [hi, ← Int.ofNat_tmod, Int.natAbs_natCast]
      · rw [hi, Int.neg_tmod, ← Int.ofNat_tmod, digitChar_neg (by simpa using hr)]
        simp
    have hq : (i.tdiv base).natAbs = i.natAbs / base := by
      rw [Int.natAbs_tdiv, Int.natAbs_natCast]
      rfl
    have hd : base.digits i.natAbs = (i.natAbs % base) :: base.digits (i.natAbs / base) :=
      Nat.digits_def' (by omega) (by omega)
    rw [hd, List.map_cons]
    simp only [digitLoop]
    rw [hc]
    by_cases hz : i.tdiv base = 0
    · have : i.natAbs / base = 0 := by rw [← hq, hz]; rfl
      simp [hz, this]
    · rw [if_neg hz, ih _ hz, hq]
      rw [hq]
      exact Nat.div_lt_of_lt_mul (by rwa [← pow_succ'])

theorem numeral_eq_digitLoop (hb : 2 ≤ base) (hb' : base ≤ 36) (hn : n < 2 ^ 64) (i : Int)
    (hi : i.natAbs = n) : (digitLoop base 64 i).reverse = numeral base n := by
  subst hi
  unfold numeral
  split
  · rename_i h
    have : i = 0 := by omega
    subst this
    simp [digitLoop]
  · rw [digitLoop_digits hb hb' 64 i (by omega)]
    exact lt_of_lt_of_le hn (Nat.pow_le_pow_left hb 64)

theorem ntoa_natCast (hb : 2 ≤ base) (hb' : base ≤ 36) (hn : n < 2 ^ 64) :
    ntoa n base = numeral base n := by
  unfold ntoa
  rw [if_neg (by omega), if_neg (by omega)]
  exact numeral_eq_digitLoop hb hb' hn _ (Int.natAbs_natCast n)

/-- A number that is not negative has no sign to look for. -/
theorem untoa_eq (n : Nat) (base : Int) : untoa n base = ntoa n base := by
  unfold untoa ntoa
  have hsign : ¬ ((n : Int) < 0 ∧ base = 10) := fun h => absurd h.1 (by omega)
  rw [if_neg hsign]
  rfl

theorem untoa_numeral (hb : 2 ≤ base) (hb' : base ≤ 36) (hn : n < 2 ^ 64) :
    untoa n base = numeral base n :=
  (untoa_eq n base).trans (ntoa_natCast hb hb' hn)

/-- A negative number is its digits and then its sign. -/
theorem ntoa_neg (h0 : 0 < n) (hn : n < 2 ^ 64) :
    ntoa (-n) 10 = numeral 10 n ++ [ch '-'] := by
  unfold ntoa
  rw [if_neg (by omega), if_pos ⟨by omega, rfl⟩, List.reverse_append]
  rw [show (10 : Int) = ((10 : Nat) : Int) from rfl,
    numeral_eq_digitLoop (by omega) (by omega) hn _ (by omega)]
  rfl

theorem numeral_ne_nil (base n : Nat) : numeral base n ≠ [] := by
  unfold numeral
  split
  · simp
  · rename_i h
    rw [Ne, List.reverse_eq_nil_iff, List.map_eq_nil_iff]
    exact Nat.digits_ne_nil_iff_ne_zero.2 h

theorem mem_numeral (hb : 2 ≤ base) (hb' : base ≤ 36) {c : Byte} (h : c ∈ numeral base n) :
    c ≠ ch '-' ∧ c ≠ ch '%' ∧ c ≠ 0xFF := by
  unfold numeral at h
  split at h
  · rw [List.mem_singleton.1 h]
    exact digitChar_plain (n := 0) (by omega)
  · obtain ⟨d, hd, rfl⟩ := List.mem_map.1 (List.mem_reverse.1 h)
    exact digitChar_plain (lt_of_lt_of_le (Nat.digits_lt_base (by omega) hd) hb')

/-- Between a thousand million and ten thousand million there are ten digits. -/
theorem length_numeral_ten (h : 10 ^ 9 ≤ n) (h' : n < 10 ^ 10) : (numeral 10 n).length = 10 := by
  have h0 : n ≠ 0 := by omega
  unfold numeral
  rw [if_neg h0, List.length_reverse, List.length_map]
  have h₁ : (Nat.digits 10 n).length ≤ 10 := (Nat.digits_length_le_iff (by omega) n).2 h'
  have h₂ : 9 < (Nat.digits 10 n).length := (Nat.lt_digits_length_iff (by omega) n).2 h
  omega

theorem length_numeral_lt (h : n < 10 ^ 9) : (numeral 10 n).length < 10 := by
  unfold numeral
  split
  · simp
  · rw [List.length_reverse, List.length_map]
    have : (Nat.digits 10 n).length ≤ 9 := (Nat.digits_length_le_iff (by omega) n).2 h
    omega

theorem numeral_inj (hn : n ≠ 0) (hm : m ≠ 0) (h : numeral 10 n = numeral 10 m) : n = m := by
  unfold numeral at h
  rw [if_neg hn, if_neg hm] at h
  have back : ∀ k, ((Nat.digits 10 k).map fun d : Nat => digitChar d).map
      (fun c => c.toNat - 48) = Nat.digits 10 k := by
    intro k
    rw [List.map_map]
    refine (List.map_congr_left fun d hd => ?_).trans (List.map_id _)
    exact digitChar_toNat (Nat.digits_lt_base (by omega) hd)
  rw [← Nat.digits_inj_iff (b := 10), ← back n, ← back m, List.reverse_injective h]

end BrownieOS.LibC
