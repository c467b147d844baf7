import BrownieOS.LibC.Strings
import Mathlib.Data.List.Lex

/-!
# `strcmp` and `strncmp` on strings

`strcmp` stops at the first difference or at the terminators. `strncmp` goes on behind the
terminators of equal strings, so it compares the two strings just when they differ or its
bound ends at the terminator.
-/
namespace BrownieOS.LibC

open BrownieOS.Lib

/-- The loop of `strcmp` from `i` on, as far as `fuel` turns go: what it returns, and the
indices at which it has read both strings. -/
def strcmpLoop (a b : Nat → Byte) : Nat → Nat → Option (Int × List Nat)
  | 0, _ => none
  | fuel + 1, i =>
    if a i < b i then some (-1, [i])
    else if b i < a i then some (1, [i])
    else if a i = 0 then some (0, [i])
    else (strcmpLoop a b fuel (i + 1)).map fun rest => (rest.1, i :: rest.2)

/-- `strcmp` returns `r` and has read at the indices `reads`. -/
def Strcmp (a b : Nat → Byte) (r : Int) (reads : List Nat) : Prop :=
  ∃ fuel, strcmpLoop a b fuel 0 = some (r, reads)

/-- The loop of `strncmp` with the indices at which it reads. -/
def strncmpReads (a b : Nat → Byte) : Nat → Nat → List Nat
  | _, 0 => []
  | i, n + 1 => i :: if a i < b i ∨ b i < a i then [] else strncmpReads a b (i + 1) n

/-- The string `s` stands at `a`, whatever follows its terminator. -/
structure IsString (a : Nat → Byte) (s : List Byte) : Prop where
  noNul : 0 ∉ s
  held : Mem.HoldsAt a 0 (s ++ [0])

/-- The lexicographic order of two strings of unsigned bytes, as a sign. -/
def lexSign (s t : List Byte) : Int := if s < t then -1 else if t < s then 1 else 0

/-- `strcmp` decides the lexicographic order and reads no byte behind a terminator. -/
def StrcmpOrders (a b : Nat → Byte) (s t : List Byte) : Prop :=
  ∃ reads, Strcmp a b (lexSign s t) reads ∧ ∀ i ∈ reads, i ≤ s.length ∧ i ≤ t.length

/-- `strncmp` answers as `strcmp` does for the strings cut to `n` characters, and as for the
whole strings when `n` is above both lengths, and reads no byte behind a terminator. -/
structure StrncmpOrders (a b : Nat → Byte) (s t : List Byte) (n : Nat) : Prop where
  cut : ∀ a' b', IsString a' (s.take n) → IsString b' (t.take n) →
    ∃ reads, Strcmp a' b' (strncmp a b n) reads
  whole : s.length < n → t.length < n → ∃ reads, Strcmp a b (strncmp a b n) reads
  inside : ∀ i ∈ strncmpReads a b 0 n, i ≤ s.length ∧ i ≤ t.length

section Order

variable {a b : Nat → Byte} {s t : List Byte} {c d : Byte} {i k n fuel : Nat}

theorem lexSign_self (s : List Byte) : lexSign s s = 0 := by
  unfold lexSign
  rw [if_neg (List.lt_irrefl s), if_neg (List.lt_irrefl s)]

theorem lexSign_nil_cons (d : Byte) (t : List Byte) : lexSign [] (d :: t) = -1 :=
  if_pos (List.nil_lt_cons d t)

theorem lexSign_cons_nil (c : Byte) (s : List Byte) : lexSign (c :: s) [] = 1 := by
  unfold lexSign
  rw [if_neg (List.not_lt_nil _), if_pos (List.nil_lt_cons c s)]

theorem lexSign_of_lt (h : c < d) : lexSign (c :: s) (d :: t) = -1 :=
  if_pos (List.cons_lt_cons_iff.2 (Or.inl h))

theorem lexSign_of_gt (h : d < c) : lexSign (c :: s) (d :: t) = 1 := by
  have hnot : ¬ c :: s < d :: t := by
    rw [List.cons_lt_cons_iff]
    rintro (hlt | ⟨rfl, -⟩)
    · exact BitVec.lt_irrefl _ (BitVec.lt_trans h hlt)
    · exact BitVec.lt_irrefl _ h
  unfold lexSign
  rw [if_neg hnot, if_pos (List.cons_lt_cons_iff.2 (Or.inl h))]

theorem lexSign_cons_self (c : Byte) (s t : List Byte) :
    lexSign (c :: s) (c :: t) = lexSign s t := by
  have hcons : ∀ s t : List Byte, c :: s < c :: t ↔ s < t := by
    intro s t
    rw [List.cons_lt_cons_iff, or_iff_right (BitVec.lt_irrefl c), and_iff_right rfl]
  unfold lexSign
  rw [if_congr (hcons s t) rfl rfl, if_congr (hcons t s) rfl rfl]

/-- The order of two bytes, for the tests of the loops. -/
theorem byte_trichotomy (c d : Byte) : c < d ∨ d < c ∨ c = d := by
  rcases Nat.lt_trichotomy c.toNat d.toNat with h | h | h
  · exact Or.inl h
  · exact Or.inr (Or.inr (BitVec.eq_of_toNat_eq h))
  · exact Or.inr (Or.inl h)

theorem pos_of_ne_zero (h : 0 ≠ c) : (0 : Byte) < c := by
  rcases byte_trichotomy 0 c with hlt | hgt | heq
  · exact hlt
  · exact absurd hgt (Nat.not_lt_zero _)
  · exact absurd heq h

/-- What stands at `i` and from the next byte on. -/
theorem holdsAt_cons (h : Mem.HoldsAt a i (c :: s ++ [0])) :
    a i = c ∧ Mem.HoldsAt a (i + 1) (s ++ [0]) := by
  have h' : Mem.HoldsAt a i ([c] ++ (s ++ [0])) := h
  obtain ⟨hc, hs⟩ := Mem.holdsAt_append.1 h'
  exact ⟨hc 0 Nat.one_pos, hs⟩

theorem holdsAt_nil (h : Mem.HoldsAt a i ([] ++ [0])) : a i = 0 := h 0 Nat.one_pos

theorem read_here (s t : List Byte) : ∀ k ∈ [i], k ≤ i + s.length ∧ k ≤ i + t.length := by
  intro k hk
  obtain rfl := List.mem_singleton.1 hk
  exact ⟨Nat.le_add_right _ _, Nat.le_add_right _ _⟩

theorem read_next {reads : List Nat}
    (h : ∀ k ∈ reads, k ≤ i + 1 + s.length ∧ k ≤ i + 1 + t.length) :
    ∀ k ∈ i :: reads, k ≤ i + (c :: s).length ∧ k ≤ i + (d :: t).length := by
  intro k hk
  simp only [List.length_cons]
  rcases List.mem_cons.1 hk with rfl | hk
  · omega
  · have := h k hk
    omega

/-! ## strcmp -/

/-- From `i` on `strcmp` decides the order of what is left of the strings. -/
theorem strcmpLoop_orders (hs : 0 ∉ s) (ht : 0 ∉ t) (ha : Mem.HoldsAt a i (s ++ [0]))
    (hb : Mem.HoldsAt b i (t ++ [0])) (hf : s.length < fuel) :
    ∃ reads, strcmpLoop a b fuel i = some (lexSign s t, reads) ∧
      ∀ k ∈ reads, k ≤ i + s.length ∧ k ≤ i + t.length := by
  induction s generalizing t i fuel with
  | nil =>
    obtain ⟨fuel, rfl⟩ := Nat.exists_eq_succ_of_ne_zero (by omega : fuel ≠ 0)
    have hz := holdsAt_nil ha
    cases t with
    | nil =>
      have hz' := holdsAt_nil hb
      refine ⟨[i], ?_, read_here _ _⟩
      rw [strcmpLoop, hz, hz', if_neg (BitVec.lt_irrefl _), if_neg (BitVec.lt_irrefl _), if_pos rfl,
        lexSign_self]
    | cons d t =>
      obtain ⟨hd, -⟩ := holdsAt_cons hb
      have hpos := pos_of_ne_zero fun he => ht (he ▸ List.mem_cons_self)
      refine ⟨[i], ?_, read_here _ _⟩
      rw [strcmpLoop, hz, hd, if_pos hpos, lexSign_nil_cons]
  | cons c s ih =>
    obtain ⟨fuel, rfl⟩ := Nat.exists_eq_succ_of_ne_zero (by omega : fuel ≠ 0)
    obtain ⟨hc, ha'⟩ := holdsAt_cons ha
    have hpos := pos_of_ne_zero fun he => hs (he ▸ List.mem_cons_self)
    cases t with
    | nil =>
      have hz := holdsAt_nil hb
      refine ⟨[i], ?_, read_here _ _⟩
      rw [strcmpLoop, hc, hz, if_neg (show ¬ c < 0 from Nat.not_lt_zero _), if_pos hpos,
        lexSign_cons_nil]
    | cons d t =>
      obtain ⟨hd, hb'⟩ := holdsAt_cons hb
      rw [strcmpLoop, hc, hd]
      rcases byte_trichotomy c d with hlt | hgt | rfl
      · exact ⟨[i], by rw [if_pos hlt, lexSign_of_lt hlt], read_here _ _⟩
      · refine ⟨[i], ?_, read_here _ _⟩
        rw [if_neg fun hlt => BitVec.lt_irrefl _ (BitVec.lt_trans hlt hgt), if_pos hgt,
          lexSign_of_gt hgt]
      · rw [List.length_cons] at hf
        obtain ⟨reads, hloop, hreads⟩ := ih (fun h => hs (List.mem_cons_of_mem c h))
          (fun h => ht (List.mem_cons_of_mem c h)) ha' hb' (by omega : s.length < fuel)
        refine ⟨i :: reads, ?_, read_next hreads⟩
        rw [if_neg (BitVec.lt_irrefl _), if_neg (BitVec.lt_irrefl _), if_neg (by
          rintro rfl
          exact BitVec.lt_irrefl _ hpos), hloop, lexSign_cons_self]
        rfl

theorem strcmp_orders (ha : IsString a s) (hb : IsString b t) : StrcmpOrders a b s t := by
  obtain ⟨reads, hloop, hreads⟩ := strcmpLoop_orders ha.noNul hb.noNul ha.held hb.held
    (Nat.lt_succ_self s.length)
  refine ⟨reads, ⟨_, hloop⟩, fun k hk => ?_⟩
  rw [← Nat.zero_add s.length, ← Nat.zero_add t.length]
  exact hreads k hk

/-! ## strncmp -/

/-- While the strings differ, or the bound is not behind the terminator, `strncmp` decides the
order of the strings cut at the bound. -/
theorem strncmpLoop_orders (hs : 0 ∉ s) (ht : 0 ∉ t) (ha : Mem.HoldsAt a i (s ++ [0]))
    (hb : Mem.HoldsAt b i (t ++ [0])) (hn : s ≠ t ∨ n ≤ s.length + 1) :
    strncmpLoop a b i n = lexSign (s.take n) (t.take n) ∧
      ∀ k ∈ strncmpReads a b i n, k ≤ i + s.length ∧ k ≤ i + t.length := by
  induction n generalizing s t i with
  | zero => exact ⟨(lexSign_self []).symm, fun k hk => absurd hk List.not_mem_nil⟩
  | succ n ih =>
    rw [strncmpLoop, strncmpReads]
    cases s with
    | nil =>
      have hz := holdsAt_nil ha
      cases t with
      | nil =>
        have hz' := holdsAt_nil hb
        rcases hn with hne | hle
        · exact absurd rfl hne
        · obtain rfl : n = 0 := by
            simp only [List.length_nil] at hle
            omega
          rw [hz, hz', if_neg (BitVec.lt_irrefl _), if_neg (BitVec.lt_irrefl _), strncmpReads,
            ite_self]
          exact ⟨(lexSign_self []).symm, read_here _ _⟩
      | cons d t =>
        obtain ⟨hd, -⟩ := holdsAt_cons hb
        have hpos := pos_of_ne_zero fun he => ht (he ▸ List.mem_cons_self)
        rw [hz, hd, if_pos hpos, if_pos (Or.inl hpos)]
        exact ⟨(lexSign_nil_cons _ _).symm, read_here _ _⟩
    | cons c s =>
      obtain ⟨hc, ha'⟩ := holdsAt_cons ha
      have hpos := pos_of_ne_zero fun he => hs (he ▸ List.mem_cons_self)
      cases t with
      | nil =>
        rw [hc, holdsAt_nil hb, if_neg (show ¬ c < 0 from Nat.not_lt_zero _), if_pos hpos,
          if_pos (Or.inr hpos)]
        exact ⟨(lexSign_cons_nil _ _).symm, read_here _ _⟩
      | cons d t =>
        obtain ⟨hd, hb'⟩ := holdsAt_cons hb
        rw [hc, hd, List.take_succ_cons, List.take_succ_cons]
        rcases byte_trichotomy c d with hlt | hgt | rfl
        · rw [if_pos hlt, if_pos (Or.inl hlt)]
          exact ⟨(lexSign_of_lt hlt).symm, read_here _ _⟩
        · rw [if_neg fun hlt => BitVec.lt_irrefl _ (BitVec.lt_trans hlt hgt), if_pos hgt,
            if_pos (Or.inr hgt)]
          exact ⟨(lexSign_of_gt hgt).symm, read_here _ _⟩
        · have hn' : s ≠ t ∨ n ≤ s.length + 1 := by
            rcases hn with hne | hle
            · exact Or.inl fun he => hne (by rw [he])
            · exact Or.inr (by rw [List.length_cons] at hle; omega)
          obtain ⟨hloop, hreads⟩ := ih (fun h => hs (List.mem_cons_of_mem c h))
            (fun h => ht (List.mem_cons_of_mem c h)) ha' hb' hn'
          rw [if_neg (BitVec.lt_irrefl _), if_neg (BitVec.lt_irrefl _),
            if_neg (not_or.2 ⟨BitVec.lt_irrefl _, BitVec.lt_irrefl _⟩), lexSign_cons_self]
          exact ⟨hloop, read_next hreads⟩

/-- Behind equal bytes the loop reads on. -/
theorem mem_strncmpReads (hk : k < n) (h : ∀ l < k, a (i + l) = b (i + l)) :
    i + k ∈ strncmpReads a b i n := by
  induction k generalizing i n with
  | zero =>
    obtain ⟨n, rfl⟩ := Nat.exists_eq_succ_of_ne_zero (by omega : n ≠ 0)
    exact List.mem_cons_self
  | succ k ih =>
    obtain ⟨n, rfl⟩ := Nat.exists_eq_succ_of_ne_zero (by omega : n ≠ 0)
    have heq : a i = b i := h 0 (Nat.zero_lt_succ k)
    rw [strncmpReads, heq, if_neg (not_or.2 ⟨BitVec.lt_irrefl _, BitVec.lt_irrefl _⟩)]
    have hrest := ih (i := i + 1) (n := n) (by omega) fun l hl => by
      rw [Nat.add_assoc, Nat.add_comm 1]
      exact h (l + 1) (by omega)
    rw [Nat.add_comm k 1, ← Nat.add_assoc]
    exact List.mem_cons_of_mem i hrest

/-- The two functions agree, and read inside the strings, just when the strings differ or the
bound is at most one above their length. -/
theorem compare_agrees_iff (ha : IsString a s) (hb : IsString b t) (n : Nat) :
    StrcmpOrders a b s t ∧ StrncmpOrders a b s t n ↔ s ≠ t ∨ n ≤ s.length + 1 := by
  constructor
  · rintro ⟨-, horder⟩
    by_contra hnot
    obtain ⟨heq, hlt⟩ := not_or.1 hnot
    obtain rfl := not_not.1 heq
    have hsame : ∀ l < s.length + 1, a (0 + l) = b (0 + l) := by
      intro l hl
      have hl' : l < (s ++ [0]).length := by rwa [List.length_append, List.length_singleton]
      rw [ha.held l hl', hb.held l hl']
    have hbehind := (horder.inside _ (mem_strncmpReads (by omega) hsame)).1
    omega
  · intro hn
    obtain ⟨hloop, hreads⟩ := strncmpLoop_orders ha.noNul hb.noNul ha.held hb.held hn
    refine ⟨strcmp_orders ha hb, fun a' b' ha' hb' => ?_, fun hs ht => ?_, fun k hk => ?_⟩
    · obtain ⟨reads, hcut, -⟩ := strcmp_orders ha' hb'
      exact ⟨reads, by rw [strncmp, hloop]; exact hcut⟩
    · obtain ⟨reads, hwhole, -⟩ := strcmp_orders ha hb
      refine ⟨reads, ?_⟩
      rw [strncmp, hloop, List.take_of_length_le (by omega), List.take_of_length_le (by omega)]
      exact hwhole
    · rw [← Nat.zero_add s.length, ← Nat.zero_add t.length]
      exact hreads k hk

end Order

/-- The string `x`, and a byte behind its terminator. -/
def stringX (c : Byte) : Nat → Byte := Mem.ofBytes [ch 'x', 0, c]

theorem isString_x (c : Byte) : IsString (stringX c) [ch 'x'] := by
  refine ⟨by decide, fun k hk => ?_⟩
  have hk' : k = 0 ∨ k = 1 := by
    simp only [List.length_append, List.length_singleton] at hk
    omega
  rcases hk' with rfl | rfl
  · rfl
  · rfl

theorem compare_agrees_iff_x :
    StrcmpOrders (stringX (ch 'a')) (stringX (ch 'b')) [ch 'x'] [ch 'x'] ∧
      StrncmpOrders (stringX (ch 'a')) (stringX (ch 'b')) [ch 'x'] [ch 'x'] 2 :=
  (compare_agrees_iff (isString_x (ch 'a')) (isString_x (ch 'b')) 2).2 (Or.inr (by decide))

/-- Equal strings with different bytes behind them, compared beyond their terminators. -/
theorem strncmp_behind_terminator : ¬ ∀ (a b : Nat → Byte) (s t : List Byte) (n : Nat),
    IsString a s → IsString b t → StrcmpOrders a b s t ∧ StrncmpOrders a b s t n := by
  intro h
  have horder := (h _ _ _ _ 3 (isString_x (ch 'a')) (isString_x (ch 'b'))).2
  obtain ⟨reads, hwhole⟩ := horder.whole (by decide) (by decide)
  have hcmp : strncmp (stringX (ch 'a')) (stringX (ch 'b')) 3 = -1 := by
    decide
  rw [hcmp] at hwhole
  obtain ⟨fuel, hloop⟩ := hwhole
  have hequal : ∀ fuel, (strcmpLoop (stringX (ch 'a')) (stringX (ch 'b')) fuel 0).map Prod.fst ≠
      some (-1) := by
    intro fuel
    rcases fuel with _ | _ | fuel
    · exact nofun
    · decide
    · have hstop : strcmpLoop (stringX (ch 'a')) (stringX (ch 'b')) (fuel + 2) 0 =
          some (0, [0, 1]) := rfl
      rw [hstop]
      decide
  exact hequal fuel (by rw [hloop]; rfl)

end BrownieOS.LibC
