import BrownieOS.LibC.Itoa

/-!
# The number texts as they are stored

The conversions write the digits behind one another, put the terminator, and then swap
bytes from both ends until the two pointers meet. What they leave in memory is the text of
`ntoa`. A minus sign is written first and takes part in the swapping, so negative numbers
come out with the sign behind the digits.
-/
namespace BrownieOS.LibC

open BrownieOS.Lib

/-- The `do .. while(i)` loop: the memory and `strptr` after it. -/
def storeDigits (base : Int) : Nat → Int → Mem → Nat → Mem × Nat
  | 0, _, m, strptr => (m, strptr)
  | fuel + 1, i, m, strptr =>
    let m := Function.update m strptr (digitChar (i.tmod base))
    let strptr := strptr + 1
    let i := i.tdiv base
    if i = 0 then (m, strptr) else storeDigits base fuel i m strptr

/-- The `while(strreverse<strptr)` loop. -/
def storeReverse : Nat → Nat → Nat → Mem → Mem
  | 0, _, _, m => m
  | fuel + 1, strreverse, strptr, m =>
    if strreverse < strptr then
      let swap := m strreverse
      let m := Function.update m strreverse (m strptr)
      let m := Function.update m strptr swap
      storeReverse fuel (strreverse + 1) (strptr - 1) m
    else m

/-- From the digits on: they are written at `strptr`, and all from `str` on is reversed. -/
def storeRest (i base : Int) (m : Mem) (str strptr : Nat) : Mem :=
  let stored := storeDigits base 64 i m strptr
  let m := Function.update stored.1 stored.2 0
  storeReverse (stored.2 - str) str (stored.2 - 1) m

/-- The body the signed conversions share, on the memory behind `str`. -/
def storeNtoa (i base : Int) (m : Mem) (str : Nat) : Mem :=
  if base < 2 ∨ 36 < base then Function.update m str 0
  else
    let signed := if i < 0 ∧ base = 10 then (Function.update m str (ch '-'), str + 1) else (m, str)
    storeRest i base signed.1 str signed.2

/-- The body of the unsigned ones, which write no sign. -/
def storeUntoa (n : Nat) (base : Int) (m : Mem) (str : Nat) : Mem :=
  if base < 2 ∨ 36 < base then Function.update m str 0 else storeRest n base m str str

def storeItoa (i : BitVec 32) (m : Mem) (str : Nat) (base : Int) : Mem := storeNtoa i.toInt base m str

def storeUtoa (i : BitVec 32) (m : Mem) (str : Nat) (base : Int) : Mem := storeUntoa i.toNat base m str

/-- A `long` has 32 bits. -/
def storeLtoa (i : BitVec 32) (m : Mem) (str : Nat) (base : Int) : Mem := storeNtoa i.toInt base m str

def storeUltoa (i : BitVec 32) (m : Mem) (str : Nat) (base : Int) : Mem := storeUntoa i.toNat base m str

def storeLltoa (i : BitVec 64) (m : Mem) (str : Nat) (base : Int) : Mem := storeNtoa i.toInt base m str

def storeUlltoa (i : BitVec 64) (m : Mem) (str : Nat) (base : Int) : Mem := storeUntoa i.toNat base m str

section Store

variable {m : Mem} {base : Int} {fuel str lo hi : Nat} {text : List Byte}

theorem digitLoop_ne_nil (base : Int) (fuel : Nat) (i : Int) : digitLoop base (fuel + 1) i ≠ [] := by
  rw [digitLoop]
  split
  · exact List.cons_ne_nil _ _
  · exact List.cons_ne_nil _ _

theorem storeDigits_eq (i : Int) (m : Mem) (strptr : Nat) : storeDigits base fuel i m strptr =
    (m.writeAt strptr (digitLoop base fuel i), strptr + (digitLoop base fuel i).length) := by
  induction fuel generalizing i m strptr with
  | zero =>
    rw [storeDigits, digitLoop, Mem.writeAt_nil]
    rfl
  | succ fuel ih =>
    rw [storeDigits, digitLoop]
    split
    · rw [Mem.writeAt_cons, Mem.writeAt_nil]
      rfl
    · rw [ih, Mem.writeAt_cons, List.length_cons, Nat.add_assoc, Nat.add_comm 1]

/-- Swapping from both ends turns the region round. -/
theorem storeReverse_apply (h : hi ≤ lo + fuel) (m : Mem) (x : Nat) :
    storeReverse fuel lo hi m x = if lo ≤ x ∧ x ≤ hi then m (lo + hi - x) else m x := by
  induction fuel generalizing lo hi m with
  | zero =>
    rw [storeReverse]
    split
    · congr 1
      omega
    · rfl
  | succ fuel ih =>
    rw [storeReverse]
    split
    · rw [ih (by omega)]
      by_cases hlo : x = lo
      · subst hlo
        rw [if_neg (by omega), if_pos (by omega), Function.update_of_ne (by omega),
          Function.update_self, Nat.add_sub_cancel_left]
      · by_cases hhi : x = hi
        · subst hhi
          rw [if_neg (by omega), if_pos (by omega), Function.update_self, Nat.add_sub_cancel]
        · by_cases hin : lo ≤ x ∧ x ≤ hi
          · rw [if_pos (by omega), if_pos hin, Function.update_of_ne (by omega),
              Function.update_of_ne (by omega)]
            congr 1
            omega
          · rw [if_neg (by omega), if_neg hin, Function.update_of_ne hhi, Function.update_of_ne hlo]
    · split
      · congr 1
        omega
      · rfl

/-- A text turned round in place. -/
theorem storeReverse_writeAt (hne : text ≠ []) (m : Mem) (str : Nat) :
    storeReverse text.length str (str + text.length - 1) (m.writeAt str (text ++ [0])) =
      m.writeAt str (text.reverse ++ [0]) := by
  have hpos := List.length_pos_iff.2 hne
  funext x
  rw [storeReverse_apply (by omega)]
  unfold Mem.writeAt
  split
  · rename_i hin
    rw [if_pos (by omega), if_pos (by omega), List.getElem?_append_left (by omega),
      List.getElem?_append_left (by rw [List.length_reverse]; omega),
      List.getElem?_reverse (by omega), List.getElem?_eq_getElem (by omega),
      List.getElem?_eq_getElem (by omega)]
    simp only [Option.getD_some]
    congr 1
    omega
  · by_cases hlt : str ≤ x
    · rw [if_pos hlt, if_pos hlt, List.getElem?_append_right (by omega),
        List.getElem?_append_right (by rw [List.length_reverse]; omega), List.length_reverse]
    · rw [if_neg hlt, if_neg hlt]

/-- The conversions leave the text of `ntoa` and its terminator, and nothing else. -/
theorem storeNtoa_eq (i base : Int) (m : Mem) (str : Nat) :
    storeNtoa i base m str = m.writeAt str (ntoa i base ++ [0]) := by
  unfold storeNtoa ntoa
  split
  · rw [List.nil_append, Mem.writeAt_cons, Mem.writeAt_nil]
  · obtain ⟨sign, hsign⟩ : ∃ sign : List Byte, sign = if i < 0 ∧ base = 10 then [ch '-'] else [] :=
      ⟨_, rfl⟩
    have hstart : (if i < 0 ∧ base = 10 then (Function.update m str (ch '-'), str + 1) else (m, str)) =
        (m.writeAt str sign, str + sign.length) := by
      rw [hsign]
      split
      · rw [Mem.writeAt_cons, Mem.writeAt_nil]
        rfl
      · rw [Mem.writeAt_nil]
        rfl
    have hne : sign ++ digitLoop base 64 i ≠ [] := by
      rw [Ne, List.append_eq_nil_iff]
      exact fun h => digitLoop_ne_nil base 63 i h.2
    have hend : Function.update (m.writeAt str (sign ++ digitLoop base 64 i))
        (str + (sign ++ digitLoop base 64 i).length) 0 =
          m.writeAt str (sign ++ digitLoop base 64 i ++ [0]) := by
      rw [Mem.writeAt_append m str _ [0], Mem.writeAt_cons, Mem.writeAt_nil]
    dsimp only
    rw [hstart, ← hsign, storeRest, storeDigits_eq, ← storeReverse_writeAt hne m str, ← hend,
      Mem.writeAt_append m str sign, List.length_append, Nat.add_assoc, Nat.add_sub_cancel_left]

theorem storeUntoa_eq (n : Nat) (base : Int) (m : Mem) (str : Nat) :
    storeUntoa n base m str = m.writeAt str (ntoa n base ++ [0]) := by
  have hsign : ¬ ((n : Int) < 0 ∧ base = 10) := fun h => absurd h.1 (by omega)
  rw [← storeNtoa_eq, storeNtoa, if_neg hsign, storeUntoa]

end Store

/-! ## Reading back -/

/-- The number that decimal digits denote, most significant first. -/
def digitsValue (digits : List Byte) : Nat := digits.foldl (fun v c => 10 * v + (c.toNat - 48)) 0

/-- The number that a decimal text with an optional sign denotes. -/
def decimalValue : List Byte → Int
  | [] => 0
  | c :: text => if c = ch '-' then -digitsValue text else digitsValue (c :: text)

/-- The canonical decimal text of `i`. -/
structure DecimalText (i : Int) (digits text : List Byte) : Prop where
  sign : text = (if i < 0 then [ch '-'] else []) ++ digits
  nonempty : digits ≠ []
  digit : ∀ c ∈ digits, (ch '0').toNat ≤ c.toNat ∧ c.toNat ≤ (ch '9').toNat
  noLeadingZero : digits.head? = some (ch '0') → digits = [ch '0']
  value : digitsValue digits = i.natAbs

/-- At `str` stand the canonical text of `i` and a NUL, and the text reads back as `i`. -/
def RoundTrips (m : Mem) (str : Nat) (i : Int) : Prop :=
  ∃ digits text, m.HoldsAt str (text ++ [0]) ∧ DecimalText i digits text ∧ decimalValue text = i

section Reading

variable {m : Mem} {str n : Nat} {i : Int} {digits text : List Byte}

theorem digitsValue_reverse (ds : List Nat) (h : ∀ d ∈ ds, d < 10) :
    digitsValue ((ds.map fun d : Nat => digitChar d).reverse) = Nat.ofDigits 10 ds := by
  unfold digitsValue
  rw [List.foldl_reverse]
  induction ds with
  | nil => rfl
  | cons d ds ih =>
    have hd : d < 10 := h d (List.mem_cons_self ..)
    rw [List.map_cons, List.foldr_cons, ih fun d' hd' => h d' (List.mem_cons_of_mem d hd'),
      digitChar_toNat hd, Nat.ofDigits_cons, Nat.add_comm]

theorem digitsValue_numeral (n : Nat) : digitsValue (numeral 10 n) = n := by
  unfold numeral
  split
  · rename_i h0
    rw [h0]
    decide
  · rw [digitsValue_reverse _ fun d hd => Nat.digits_lt_base (by omega) hd, Nat.ofDigits_digits]

theorem digitChar_decimal {d : Nat} (h : d < 10) :
    (ch '0').toNat ≤ (digitChar d).toNat ∧ (digitChar d).toNat ≤ (ch '9').toNat ∧
      (digitChar d = ch '0' → d = 0) := by
  revert d
  decide

theorem numeral_digit {c : Byte} (h : c ∈ numeral 10 n) :
    (ch '0').toNat ≤ c.toNat ∧ c.toNat ≤ (ch '9').toNat := by
  unfold numeral at h
  split at h
  · rw [List.mem_singleton.1 h]
    decide
  · obtain ⟨d, hd, rfl⟩ := List.mem_map.1 (List.mem_reverse.1 h)
    have hplain := digitChar_decimal (Nat.digits_lt_base (by omega) hd)
    exact ⟨hplain.1, hplain.2.1⟩

theorem numeral_noLeadingZero (h : (numeral 10 n).head? = some (ch '0')) :
    numeral 10 n = [ch '0'] := by
  unfold numeral at h ⊢
  split at h
  · rename_i h0
    rw [if_pos h0]
    decide
  · rename_i h0
    have hne : Nat.digits 10 n ≠ [] := Nat.digits_ne_nil_iff_ne_zero.2 h0
    rw [List.head?_reverse, List.getLast?_map, List.getLast?_eq_some_getLast hne,
      Option.map_some, Option.some.injEq] at h
    have hlt := Nat.digits_lt_base (b := 10) (by omega) (List.getLast_mem hne)
    exact absurd ((digitChar_decimal hlt).2.2 h) (Nat.getLast_digit_ne_zero 10 h0)

/-- `numeral` is the canonical text of a number that is not negative. -/
theorem decimalText_numeral (n : Nat) : DecimalText n (numeral 10 n) (numeral 10 n) where
  sign := by rw [if_neg (by omega), List.nil_append]
  nonempty := numeral_ne_nil 10 n
  digit := fun _ hc => numeral_digit hc
  noLeadingZero := numeral_noLeadingZero
  value := by rw [digitsValue_numeral, Int.natAbs_natCast]

theorem decimalValue_numeral (n : Nat) : decimalValue (numeral 10 n) = n := by
  obtain ⟨c, rest, htext⟩ := List.exists_cons_of_ne_nil (numeral_ne_nil 10 n)
  have hmem : c ∈ numeral 10 n := by
    rw [htext]
    exact List.mem_cons_self ..
  have hc : c ≠ ch '-' := (mem_numeral (by omega) (by omega) hmem).1
  rw [htext, decimalValue, if_neg hc, ← htext, digitsValue_numeral]

/-- The canonical text of a negative number begins with the sign. -/
theorem RoundTrips.sign_first (h : RoundTrips m str i) (hi : i < 0) : m str = ch '-' := by
  obtain ⟨digits, text, hat, ht, -⟩ := h
  rw [ht.sign, if_pos hi] at hat
  exact hat 0 (Nat.zero_lt_succ _)

/-- The signed body writes the canonical text of exactly the numbers that are not
negative. -/
theorem storeNtoa_roundTrips (hi : i.natAbs < 2 ^ 64) (m : Mem) (str : Nat) :
    RoundTrips (storeNtoa i 10 m str) str i ↔ 0 ≤ i := by
  rw [storeNtoa_eq]
  have held := Mem.holdsAt_writeAt m str (ntoa i 10 ++ [0])
  rcases Int.natAbs_eq i with hpos | hneg
  · rw [hpos] at held ⊢
    generalize i.natAbs = n at hi held
    have htext : ntoa n 10 = numeral 10 n := ntoa_natCast (by decide) (by decide) hi
    rw [htext] at held ⊢
    exact ⟨fun _ => Int.natCast_nonneg n, fun _ =>
      ⟨_, _, held, decimalText_numeral n, decimalValue_numeral n⟩⟩
  · by_cases h0 : i.natAbs = 0
    · obtain rfl : i = 0 := by omega
      exact ⟨fun _ => le_refl _, fun _ => ⟨_, _, held, decimalText_numeral 0, decimalValue_numeral 0⟩⟩
    · constructor
      · intro h
        have hfirst := h.sign_first (by omega)
        obtain ⟨c, rest, htext⟩ := List.exists_cons_of_ne_nil (numeral_ne_nil 10 i.natAbs)
        have hmem : c ∈ numeral 10 i.natAbs := by
          rw [htext]
          exact List.mem_cons_self ..
        have hc : c ≠ ch '-' := (mem_numeral (by omega) (by omega) hmem).1
        have hat := held 0 (by rw [List.length_append, List.length_singleton]; omega)
        -- The digits come first, so the byte at `str` is none of the signs.
        have hlist : ntoa i 10 ++ [0] = c :: (rest ++ [ch '-'] ++ [0]) := by
          rw [hneg, ntoa_neg (by omega) hi, htext]
          simp
        simp only [hlist] at hat hfirst
        rw [Nat.add_zero] at hat
        exact absurd (hat.symm.trans hfirst) hc
      · omega

/-- `itoa`, `ltoa` and `lltoa` write the canonical decimal text of exactly the values that
are not negative. -/
theorem signed_roundTrips_iff (m : Mem) (str : Nat) :
    (∀ i : BitVec 32, RoundTrips (storeItoa i m str 10) str i.toInt ↔ 0 ≤ i.toInt) ∧
      (∀ i : BitVec 32, RoundTrips (storeLtoa i m str 10) str i.toInt ↔ 0 ≤ i.toInt) ∧
        ∀ i : BitVec 64, RoundTrips (storeLltoa i m str 10) str i.toInt ↔ 0 ≤ i.toInt := by
  have small : ∀ i : BitVec 32, i.toInt.natAbs < 2 ^ 64 := by
    intro i
    have := i.toInt_lt
    have := i.le_toInt
    omega
  have large : ∀ i : BitVec 64, i.toInt.natAbs < 2 ^ 64 := by
    intro i
    have := i.toInt_lt
    have := i.le_toInt
    omega
  exact ⟨fun i => storeNtoa_roundTrips (small i) m str,
    fun i => storeNtoa_roundTrips (small i) m str, fun i => storeNtoa_roundTrips (large i) m str⟩

/-- -12 is written as `12-`. -/
theorem itoa_sign_last : ¬ RoundTrips (storeItoa (-12) (fun _ => 0) 0 10) 0 (-12) := by
  intro h
  have hfirst := h.sign_first (by decide)
  rw [show storeItoa (-12) (fun _ => 0) 0 10 0 = ch '1' by decide] at hfirst
  exact absurd hfirst (by decide)

end Reading

end BrownieOS.LibC
