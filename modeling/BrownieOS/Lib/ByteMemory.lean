import Mathlib.Algebra.Group.Nat.Defs
import Mathlib.Logic.Function.Basic

/-!
# Byte memories and little-endian words

A memory gives a byte to every address. Words are read and written four bytes at
a time, least significant first. `AgreeOff` is the frame condition that a group
of writes inside one region leaves for everything outside it.
-/
namespace BrownieOS.Lib

abbrev Byte := BitVec 8

abbrev Mem := Nat → Byte

namespace Mem

variable {m m' m'' : Mem} {a b lo hi v : Nat}

def get32 (m : Mem) (a : Nat) : Nat :=
  (m a).toNat + 256 * (m (a + 1)).toNat + 65536 * (m (a + 2)).toNat + 16777216 * (m (a + 3)).toNat

def set32 (m : Mem) (a v : Nat) : Mem := fun x =>
  if a ≤ x ∧ x < a + 4 then BitVec.ofNat 8 (v / 256 ^ (x - a)) else m x

def get64 (m : Mem) (a : Nat) : Nat := m.get32 a + 4294967296 * m.get32 (a + 4)

def set64 (m : Mem) (a v : Nat) : Mem :=
  (m.set32 a (v % 4294967296)).set32 (a + 4) (v / 4294967296)

theorem get32_lt (m : Mem) (a : Nat) : m.get32 a < 4294967296 := by
  unfold get32
  omega

@[simp] theorem get32_set32_self (m : Mem) (a : Nat) (h : v < 4294967296) :
    (m.set32 a v).get32 a = v := by
  simp [get32, set32]
  omega

theorem set32_apply_of_off {x : Nat} (m : Mem) (v : Nat) (h : x < a ∨ a + 4 ≤ x) :
    m.set32 a v x = m x := by
  simp only [set32]
  rw [if_neg (by omega)]

theorem get32_congr (h : ∀ x, a ≤ x → x < a + 4 → m' x = m x) : m'.get32 a = m.get32 a := by
  unfold get32
  rw [h a (by omega) (by omega), h (a + 1) (by omega) (by omega), h (a + 2) (by omega) (by omega),
    h (a + 3) (by omega) (by omega)]

theorem get32_set32_of_apart (m : Mem) (v : Nat) (h : a + 4 ≤ b ∨ b + 4 ≤ a) :
    (m.set32 a v).get32 b = m.get32 b :=
  get32_congr fun x h₁ h₂ => set32_apply_of_off m v (by omega)

/-- Aligned words are equal or apart. -/
theorem get32_set32_aligned (m : Mem) (ha : a % 4 = 0) (hb : b % 4 = 0) (hv : v < 4294967296) :
    (m.set32 a v).get32 b = if b = a then v else m.get32 b := by
  split
  · rename_i h
    rw [h, get32_set32_self m a hv]
  · exact get32_set32_of_apart m v (by omega)

/-- Of two writes to one word the later one stands. -/
theorem set32_set32_self (m : Mem) (a v w : Nat) : (m.set32 a v).set32 a w = m.set32 a w := by
  funext x
  simp only [set32]
  split <;> rfl

/-- Writing back what a word holds changes nothing. -/
theorem set32_get32_self (m : Mem) (a : Nat) : m.set32 a (m.get32 a) = m := by
  funext x
  simp only [set32]
  split
  · rename_i h
    apply BitVec.eq_of_toNat_eq
    rw [BitVec.toNat_ofNat]
    obtain ⟨k, rfl⟩ : ∃ k, x = a + k := ⟨x - a, by omega⟩
    have hk : k = 0 ∨ k = 1 ∨ k = 2 ∨ k = 3 := by omega
    simp only [get32, Nat.add_sub_cancel_left]
    rcases hk with rfl | rfl | rfl | rfl
    · simp only [Nat.add_zero]
      omega
    · omega
    · omega
    · omega
  · rfl

/-- The memories agree at every address outside `[lo, hi)`. -/
def AgreeOff (m m' : Mem) (lo hi : Nat) : Prop := ∀ x, x < lo ∨ hi ≤ x → m' x = m x

theorem AgreeOff.refl (m : Mem) (lo hi : Nat) : AgreeOff m m lo hi := fun _ _ => rfl

theorem AgreeOff.trans (h : AgreeOff m m' lo hi) (h' : AgreeOff m' m'' lo hi) :
    AgreeOff m m'' lo hi := fun x hx => (h' x hx).trans (h x hx)

theorem AgreeOff.set32 (h : AgreeOff m m' lo hi) (v : Nat) (hlo : lo ≤ a) (hhi : a + 4 ≤ hi) :
    AgreeOff m (m'.set32 a v) lo hi := by
  intro x hx
  rw [set32_apply_of_off m' v (by omega)]
  exact h x hx

theorem AgreeOff.set64 (h : AgreeOff m m' lo hi) (v : Nat) (hlo : lo ≤ a) (hhi : a + 8 ≤ hi) :
    AgreeOff m (m'.set64 a v) lo hi :=
  (h.set32 _ hlo (by omega)).set32 _ (by omega) (by omega)

theorem AgreeOff.get32 (h : AgreeOff m m' lo hi) (ha : a + 4 ≤ lo ∨ hi ≤ a) :
    m'.get32 a = m.get32 a := get32_congr fun x h₁ h₂ => h x (by omega)

theorem AgreeOff.get64 (h : AgreeOff m m' lo hi) (ha : a + 8 ≤ lo ∨ hi ≤ a) :
    m'.get64 a = m.get64 a := by
  unfold Mem.get64
  rw [h.get32 (by omega), h.get32 (by omega)]

theorem AgreeOff.mono {lo' hi' : Nat} (h : AgreeOff m m' lo hi) (hlo : lo' ≤ lo) (hhi : hi ≤ hi') :
    AgreeOff m m' lo' hi' := fun x hx => h x (by omega)

@[simp] theorem get64_set64_self (m : Mem) (a : Nat) (h : v < 18446744073709551616) :
    (m.set64 a v).get64 a = v := by
  have hlow : (m.set64 a v).get32 a = v % 4294967296 := by
    rw [set64, get32_set32_of_apart _ _ (by omega), get32_set32_self _ _ (by omega)]
  have hhigh : (m.set64 a v).get32 (a + 4) = v / 4294967296 :=
    get32_set32_self _ _ (by omega)
  rw [get64, hlow, hhigh]
  omega

theorem get64_set32_of_apart (m : Mem) (v : Nat) (h : a + 4 ≤ b ∨ b + 8 ≤ a) :
    (m.set32 a v).get64 b = m.get64 b := by
  unfold get64
  rw [get32_set32_of_apart m v (by omega), get32_set32_of_apart m v (by omega)]

theorem get32_set64_of_apart (m : Mem) (v : Nat) (h : a + 8 ≤ b ∨ b + 4 ≤ a) :
    (m.set64 a v).get32 b = m.get32 b := by
  unfold set64
  rw [get32_set32_of_apart _ _ (by omega), get32_set32_of_apart _ _ (by omega)]

theorem get64_set64_of_apart (m : Mem) (v : Nat) (h : a + 8 ≤ b ∨ b + 8 ≤ a) :
    (m.set64 a v).get64 b = m.get64 b := by
  unfold get64
  rw [get32_set64_of_apart m v (by omega), get32_set64_of_apart m v (by omega)]

/-! ## Filling a region -/

/-- Every byte of `[a, a + n)` becomes `c`. -/
def fill (m : Mem) (a n : Nat) (c : Byte) : Mem := fun x => if a ≤ x ∧ x < a + n then c else m x

theorem AgreeOff.fill {n : Nat} (h : AgreeOff m m' lo hi) (c : Byte) (hlo : lo ≤ a)
    (hhi : a + n ≤ hi) : AgreeOff m (m'.fill a n c) lo hi := by
  intro x hx
  rw [Mem.fill, if_neg (by omega)]
  exact h x hx

theorem get32_fill_zero {n : Nat} (m : Mem) (hlo : a ≤ b) (hhi : b + 4 ≤ a + n) :
    (m.fill a n 0).get32 b = 0 := by
  unfold get32 fill
  rw [if_pos (by omega), if_pos (by omega), if_pos (by omega), if_pos (by omega)]
  rfl

/-! ## Byte strings in memory -/

/-- The bytes lie at `a` one after the other. -/
def HoldsAt (m : Mem) (a : Nat) (bytes : List Byte) : Prop :=
  ∀ k (h : k < bytes.length), m (a + k) = bytes[k]

/-- The bytes as a memory of their own, from 0 on. -/
def ofBytes (bytes : List Byte) : Mem := fun k => (bytes[k]?).getD 0

variable {bytes xs ys : List Byte} {k : Nat}

theorem HoldsAt.apply (h : m.HoldsAt a bytes) (hk : k < bytes.length) : m (a + k) = ofBytes bytes k := by
  rw [h k hk, ofBytes, List.getElem?_eq_getElem hk, Option.getD_some]

theorem HoldsAt.get32 (h : m.HoldsAt a bytes) (hk : k + 4 ≤ bytes.length) :
    m.get32 (a + k) = (ofBytes bytes).get32 k := by
  simp only [Mem.get32]
  rw [h.apply (show k < bytes.length by omega), Nat.add_assoc a k 1, Nat.add_assoc a k 2,
    Nat.add_assoc a k 3, h.apply (by omega), h.apply (by omega), h.apply (by omega)]

theorem holdsAt_append : m.HoldsAt a (xs ++ ys) ↔ m.HoldsAt a xs ∧ m.HoldsAt (a + xs.length) ys := by
  constructor
  · intro h
    refine ⟨fun k hk => ?_, fun k hk => ?_⟩
    · rw [h k (by rw [List.length_append]; omega), List.getElem_append_left hk]
    · rw [Nat.add_assoc, h (xs.length + k) (by rw [List.length_append]; omega),
        List.getElem_append_right (by omega)]
      simp
  · rintro ⟨h, h'⟩ k hk
    by_cases hx : k < xs.length
    · rw [h k hx, List.getElem_append_left hx]
    · rw [List.length_append] at hk
      rw [List.getElem_append_right (by omega), ← h' (k - xs.length) (by omega)]
      congr 1
      omega

theorem holdsAt_map_range {n : Nat} {f : Nat → Byte} :
    m.HoldsAt a ((List.range n).map f) ↔ ∀ k < n, m (a + k) = f k := by
  constructor
  · intro h k hk
    rw [h k (by rwa [List.length_map, List.length_range]), List.getElem_map, List.getElem_range]
  · intro h k hk
    rw [List.getElem_map, List.getElem_range]
    exact h k (by rwa [List.length_map, List.length_range] at hk)

/-- The bytes are written at `a` one after the other. -/
def writeAt (m : Mem) (a : Nat) (bytes : List Byte) : Mem := fun x =>
  if a ≤ x then (bytes[x - a]?).getD (m x) else m x

theorem writeAt_nil (m : Mem) (a : Nat) : m.writeAt a [] = m := by
  funext x
  simp [writeAt]

theorem writeAt_cons (m : Mem) (a : Nat) (c : Byte) (bytes : List Byte) :
    m.writeAt a (c :: bytes) = writeAt (Function.update m a c) (a + 1) bytes := by
  funext x
  unfold writeAt
  by_cases hlt : x < a
  · rw [if_neg (by omega), if_neg (by omega), Function.update_of_ne (by omega)]
  · by_cases he : x = a
    · subst he
      rw [if_pos (Nat.le_refl x), if_neg (by omega), Nat.sub_self, Function.update_self]
      rfl
    · rw [if_pos (by omega), if_pos (by omega), Function.update_of_ne he,
        show x - a = x - (a + 1) + 1 by omega, List.getElem?_cons_succ]

theorem writeAt_append (m : Mem) (a : Nat) (xs ys : List Byte) :
    m.writeAt a (xs ++ ys) = (m.writeAt a xs).writeAt (a + xs.length) ys := by
  induction xs generalizing m a with
  | nil => rw [List.nil_append, writeAt_nil, List.length_nil, Nat.add_zero]
  | cons c xs ih =>
    rw [List.cons_append, writeAt_cons, ih, writeAt_cons, List.length_cons, Nat.add_assoc a 1,
      Nat.add_comm 1 xs.length]

theorem writeAt_off {x : Nat} (m : Mem) (h : x < a ∨ a + bytes.length ≤ x) :
    m.writeAt a bytes x = m x := by
  unfold writeAt
  split
  · rw [List.getElem?_eq_none (by omega)]
    rfl
  · rfl

theorem AgreeOff.writeAt (h : AgreeOff m m' lo hi) (hlo : lo ≤ a) (hhi : a + bytes.length ≤ hi) :
    AgreeOff m (m'.writeAt a bytes) lo hi := by
  intro x hx
  rw [writeAt_off m' (by omega)]
  exact h x hx

theorem holdsAt_writeAt (m : Mem) (a : Nat) (bytes : List Byte) :
    (m.writeAt a bytes).HoldsAt a bytes := by
  intro k hk
  unfold writeAt
  rw [if_pos (Nat.le_add_right a k), Nat.add_sub_cancel_left, List.getElem?_eq_getElem hk,
    Option.getD_some]

end Mem

end BrownieOS.Lib
