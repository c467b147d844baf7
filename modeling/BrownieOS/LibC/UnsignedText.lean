import BrownieOS.LibC.ItoaStore

/-!
# Unsigned number texts

In every base from 2 to 36 the unsigned conversions write the digits of the value most
significant first. There are no more of them than the value has bits, which is what the
buffers of the callers are made for.
-/
namespace BrownieOS.LibC

open BrownieOS.Lib

/-- The value of a digit: `0` to `9`, and then `a` to `z`. -/
def digitValue (c : Byte) : Nat := if c.toNat < (ch 'a').toNat then c.toNat - 48 else c.toNat - 87

/-- A digit of the base. -/
structure IsDigit (base : Nat) (c : Byte) : Prop where
  alphanumeric : (ch '0').toNat ≤ c.toNat ∧ c.toNat ≤ (ch '9').toNat ∨
    (ch 'a').toNat ≤ c.toNat ∧ c.toNat ≤ (ch 'z').toNat
  below : digitValue c < base

/-- The number that digits denote, most significant first. -/
def evalDigits (base : Nat) (text : List Byte) : Nat :=
  text.foldl (fun v c => base * v + digitValue c) 0

/-- The text of `n` in the base. -/
structure UnsignedText (base n : Nat) (text : List Byte) : Prop where
  nonempty : text ≠ []
  noLeadingZero : text.head? = some (ch '0') → n = 0
  digit : ∀ c ∈ text, IsDigit base c
  value : evalDigits base text = n

/-- The conversion that wrote `m'` over `m` has put the text of `n` and a NUL at `str`, within
`size` bytes. -/
structure WritesNumber (m m' : Mem) (str base n size : Nat) : Prop where
  text : ∃ text, m'.HoldsAt str (text ++ [0]) ∧ UnsignedText base n text ∧ text.length + 1 ≤ size
  frame : ∀ x, x < str ∨ str + size ≤ x → m' x = m x

/-- One and the same string stands at `str` and at `str'`. -/
def SameString (m m' : Mem) (str str' : Nat) : Prop :=
  ∃ text, 0 ∉ text ∧ m.HoldsAt str (text ++ [0]) ∧ m'.HoldsAt str' (text ++ [0])

section Digits

variable {base n d k : Nat} {c : Byte} {text text' : List Byte} {m m' : Mem} {str str' : Nat}

theorem digitValue_digitChar (h : d < 36) : digitValue (digitChar d) = d := by
  revert d
  decide

theorem digitChar_alphanumeric (h : d < 36) :
    (ch '0').toNat ≤ (digitChar d).toNat ∧ (digitChar d).toNat ≤ (ch '9').toNat ∨
      (ch 'a').toNat ≤ (digitChar d).toNat ∧ (digitChar d).toNat ≤ (ch 'z').toNat := by
  revert d
  decide

theorem isDigit_digitChar (hd : d < base) (hb : base ≤ 36) : IsDigit base (digitChar d) :=
  ⟨digitChar_alphanumeric (by omega), by rw [digitValue_digitChar (by omega)]; exact hd⟩

theorem evalDigits_reverse (ds : List Nat) (h : ∀ d ∈ ds, d < 36) :
    evalDigits base ((ds.map fun d : Nat => digitChar d).reverse) = Nat.ofDigits base ds := by
  unfold evalDigits
  rw [List.foldl_reverse]
  induction ds with
  | nil => rfl
  | cons d ds ih =>
    rw [List.map_cons, List.foldr_cons, ih fun d' hd' => h d' (List.mem_cons_of_mem d hd'),
      digitValue_digitChar (h d List.mem_cons_self), Nat.ofDigits_cons, Nat.add_comm]

/-- `numeral` is the text of its number. -/
theorem unsignedText_numeral (hb : 2 ≤ base) (hb' : base ≤ 36) (n : Nat) :
    UnsignedText base n (numeral base n) := by
  by_cases h0 : n = 0
  · subst h0
    refine ⟨numeral_ne_nil base 0, fun _ => rfl, fun c hc => ?_, ?_⟩
    · obtain rfl := List.mem_singleton.1 hc
      exact isDigit_digitChar (d := 0) (by omega) hb'
    · have hz : digitValue (digitChar 0) = 0 := by decide
      simp [numeral, evalDigits, hz]
  · have hdigits : ∀ d ∈ Nat.digits base n, d < base :=
      fun d hd => Nat.digits_lt_base (by omega) hd
    refine ⟨numeral_ne_nil base n, fun hhead => ?_, fun c hc => ?_, ?_⟩
    · have hne : Nat.digits base n ≠ [] := Nat.digits_ne_nil_iff_ne_zero.2 h0
      rw [numeral, if_neg h0, List.head?_reverse, List.getLast?_map,
        List.getLast?_eq_some_getLast hne, Option.map_some, Option.some.injEq] at hhead
      -- The first digit is the last of `Nat.digits`, and that is not zero.
      have hvalue := congrArg digitValue hhead
      rw [digitValue_digitChar (by have := hdigits _ (List.getLast_mem hne); omega)] at hvalue
      exact absurd hvalue (Nat.getLast_digit_ne_zero base h0)
    · rw [numeral, if_neg h0] at hc
      obtain ⟨d, hd, rfl⟩ := List.mem_map.1 (List.mem_reverse.1 hc)
      exact isDigit_digitChar (hdigits d hd) hb'
    · rw [numeral, if_neg h0, evalDigits_reverse _ fun d hd => by have := hdigits d hd; omega,
        Nat.ofDigits_digits]

/-- A number of `k` bits has at most `k` digits. -/
theorem length_numeral_le (hb : 2 ≤ base) (hk : 0 < k) (h : n < 2 ^ k) :
    (numeral base n).length ≤ k := by
  unfold numeral
  split
  · exact hk
  · rw [List.length_reverse, List.length_map, Nat.digits_length_le_iff (by omega)]
    exact Nat.lt_of_lt_of_le h (Nat.pow_le_pow_left hb k)

/-- The unsigned body writes the text of a number of `k` bits within `k + 1` bytes. -/
theorem storeUntoa_writesNumber (hb : 2 ≤ base) (hb' : base ≤ 36) (hk : 0 < k) (hk' : k ≤ 64)
    (h : n < 2 ^ k) (m : Mem) (str : Nat) :
    WritesNumber m (storeUntoa n base m str) str base n (k + 1) := by
  have hn : n < 2 ^ 64 := Nat.lt_of_lt_of_le h (Nat.pow_le_pow_right (by decide) hk')
  have hlen := length_numeral_le hb hk h
  rw [storeUntoa_eq, ntoa_natCast hb hb' hn]
  refine ⟨⟨numeral base n, Mem.holdsAt_writeAt m str _, unsignedText_numeral hb hb' n, by omega⟩,
    fun x hx => Mem.writeAt_off m ?_⟩
  rw [List.length_append, List.length_singleton]
  omega

/-! ## Distinct values -/

/-- There is one string at an address. -/
theorem string_unique (h0 : 0 ∉ text) (h0' : 0 ∉ text') (h : m.HoldsAt str (text ++ [0]))
    (h' : m.HoldsAt str (text' ++ [0])) : text = text' := by
  induction text generalizing text' str with
  | nil =>
    have hz : m str = 0 := h 0 Nat.one_pos
    cases text' with
    | nil => rfl
    | cons c text' =>
      have hc : m str = c := h' 0 (Nat.zero_lt_succ _)
      exact absurd (hz.symm.trans hc ▸ List.mem_cons_self) h0'
  | cons d text ih =>
    have hd : m str = d := h 0 (Nat.zero_lt_succ _)
    cases text' with
    | nil =>
      have hz : m str = 0 := h' 0 Nat.one_pos
      exact absurd (hz.symm.trans hd ▸ List.mem_cons_self) h0
    | cons c text' =>
      have hc : m str = c := h' 0 (Nat.zero_lt_succ _)
      obtain rfl : d = c := hd.symm.trans hc
      have hrest : ∀ {t : List Byte}, m.HoldsAt str (d :: t ++ [0]) →
          m.HoldsAt (str + 1) (t ++ [0]) := fun {t} ht =>
        (Mem.holdsAt_append.1 (show m.HoldsAt str ([d] ++ (t ++ [0])) from ht)).2
      rw [ih (fun hmem => h0 (List.mem_cons_of_mem d hmem))
        (fun hmem => h0' (List.mem_cons_of_mem d hmem)) (hrest h) (hrest h')]

theorem UnsignedText.noNul (h : UnsignedText base n text) : 0 ∉ text := by
  intro hmem
  have hnot : ¬ IsDigit base 0 := fun hd => absurd hd.alphanumeric (by decide)
  exact hnot (h.digit 0 hmem)

/-- Where two numbers have left the same string, they are the same. -/
theorem WritesNumber.value_eq {m₀ m₀' : Mem} {n' size size' : Nat}
    (h : WritesNumber m₀ m str base n size) (h' : WritesNumber m₀' m' str' base n' size')
    (hsame : SameString m m' str str') : n = n' := by
  obtain ⟨t, hat, ht, -⟩ := h.text
  obtain ⟨t', hat', ht', -⟩ := h'.text
  obtain ⟨text, hnul, hm, hm'⟩ := hsame
  rw [← ht.value, ← ht'.value, string_unique ht.noNul hnul hat hm,
    string_unique ht'.noNul hnul hat' hm']

end Digits

/-- A conversion of `w`-bit values writes their texts, within `w + 1` bytes, and distinct texts
for distinct values. -/
structure UnsignedRoundTrips {w : Nat} (store : BitVec w → Mem → Nat → Int → Mem) (base : Nat) :
    Prop where
  writes : ∀ (i : BitVec w) (m : Mem) (str : Nat),
    WritesNumber m (store i m str base) str base i.toNat (w + 1)
  distinct : ∀ (i i' : BitVec w) (m m' : Mem) (str str' : Nat),
    SameString (store i m str base) (store i' m' str' base) str str' → i = i'

theorem unsignedRoundTrips_of_writes {w base : Nat} {store : BitVec w → Mem → Nat → Int → Mem}
    (h : ∀ (i : BitVec w) (m : Mem) (str : Nat),
      WritesNumber m (store i m str base) str base i.toNat (w + 1)) :
    UnsignedRoundTrips store base :=
  ⟨h, fun i i' m m' str str' hsame =>
    BitVec.eq_of_toNat_eq ((h i m str).value_eq (h i' m' str') hsame)⟩

/-- `utoa`, `ultoa` and `ulltoa` round-trip in every base they take. -/
theorem unsigned_roundTrips (base : Nat) (hb : 2 ≤ base) (hb' : base ≤ 36) :
    UnsignedRoundTrips storeUtoa base ∧ UnsignedRoundTrips storeUltoa base ∧
      UnsignedRoundTrips storeUlltoa base := by
  refine ⟨unsignedRoundTrips_of_writes fun i m str => ?_,
    unsignedRoundTrips_of_writes fun i m str => ?_, unsignedRoundTrips_of_writes fun i m str => ?_⟩
  · exact storeUntoa_writesNumber hb hb' (by decide) (by decide) i.isLt m str
  · exact storeUntoa_writesNumber hb hb' (by decide) (by decide) i.isLt m str
  · exact storeUntoa_writesNumber hb hb' (by decide) (by decide) i.isLt m str

theorem unsigned_roundTrips_hex : UnsignedRoundTrips storeUtoa 16 ∧
    UnsignedRoundTrips storeUltoa 16 ∧ UnsignedRoundTrips storeUlltoa 16 :=
  unsigned_roundTrips 16 (by decide) (by decide)

example : numeral 16 255 = [ch 'f', ch 'f'] := by decide

end BrownieOS.LibC
