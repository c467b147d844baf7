import BrownieOS.Lib.Word32
import Mathlib.Data.List.Basic
import Mathlib.Logic.Function.Basic

/-!
# The ordered arrays of `core/common.c`

An ordered array is a block of 32-bit slots, a size and a capacity. The loops are
kept as the code has them; `entries` is the list the slots below `size` spell, and
each operation has its effect on that list.
-/
namespace BrownieOS.Core

open BrownieOS.Lib.Word32

structure OrderedArray where
  array : Nat → Nat
  size : Nat
  maxSize : Nat
  predicate : Nat → Nat → Bool

def lessPredicate (a b : Nat) : Bool := if a < b then true else false

namespace OrderedArray

/-- `init_ordered_array_place` over what the storage held. The count of bytes to clear wraps. -/
def initPlace (slots : Nat → Nat) (maxSize : Nat) : OrderedArray where
  array := fun i => if i < wmul maxSize 4 / 4 then 0 else slots i
  size := 0
  maxSize := maxSize
  predicate := lessPredicate

/-- The shifting loop of `insert_ordered_array`, entered with index `i`: the slots
it leaves and the index it stops at. -/
def insertShift (predicate : Nat → Nat → Bool) (val : Nat) : (Nat → Nat) → Nat → (Nat → Nat) × Nat
  | array, 0 => (array, 0)
  | array, i + 1 =>
    if predicate val (array i) then
      insertShift predicate val (Function.update array (i + 1) (array i)) i
    else
      (array, i + 1)

/-- `insert_ordered_array`: a full array is left alone and 0 is returned. -/
def insert (a : OrderedArray) (val : Nat) : OrderedArray × Nat :=
  if a.size < a.maxSize then
    let shifted := insertShift a.predicate val a.array a.size
    ({ a with array := Function.update shifted.1 shifted.2 val, size := a.size + 1 }, shifted.2)
  else
    (a, 0)

/-- The shifting loop of `remove_ordered_array`, for `n` more turns. -/
def removeShift : (Nat → Nat) → Nat → Nat → (Nat → Nat) × Nat
  | array, i, 0 => (array, i)
  | array, i, n + 1 => removeShift (Function.update array i (array (i + 1))) (i + 1) n

/-- `remove_ordered_array`: the loop runs while `i < size - 1`, then slot `i` is cleared. -/
def remove (a : OrderedArray) (i : Nat) : OrderedArray :=
  let shifted := removeShift a.array i (wsub a.size 1 - i)
  { a with array := Function.update shifted.1 shifted.2 0, size := wsub a.size 1 }

/-- `get_ordered_array`. -/
def get (a : OrderedArray) (i : Nat) : Nat := a.array i

/-- The search loop of `find_ordered_array`, with `n` slots left from `i` on. -/
def findFrom (array : Nat → Nat) (val : Nat) : Nat → Nat → Nat
  | _, 0 => 0xFFFFFFFF
  | i, n + 1 => if array i = val then i else findFrom array val (i + 1) n

/-- `find_ordered_array`. -/
def find (a : OrderedArray) (val : Nat) : Nat := findFrom a.array val 0 a.size

/-- The values in the slots below `size`. -/
def entries (a : OrderedArray) : List Nat := (List.range a.size).map a.array

@[simp] theorem entries_length (a : OrderedArray) : a.entries.length = a.size := by
  simp [entries]

theorem entries_getElem (a : OrderedArray) {i : Nat} (h : i < a.entries.length) :
    a.entries[i] = a.array i := by
  simp [entries]

theorem array_of_entries {a : OrderedArray} {l : List Nat} (h : a.entries = l) {i : Nat}
    (hi : i < l.length) : a.array i = l[i] := by
  subst h
  exact (a.entries_getElem hi).symm

/-- The slots spell `l` once the size and each slot are right. -/
theorem entries_eq {a : OrderedArray} {l : List Nat} (hs : a.size = l.length)
    (hi : ∀ i (h : i < l.length), a.array i = l[i]) : a.entries = l := by
  apply List.ext_getElem
  · rw [entries_length, hs]
  · intro i h₁ h₂
    rw [entries_getElem a h₁, hi i h₂]

/-! ## Insertion -/

/-- The loop moves everything the value precedes one slot up and stops below it. -/
theorem insertShift_spec (predicate : Nat → Nat → Bool) (val : Nat) :
    ∀ (i k : Nat) (array : Nat → Nat), k ≤ i → (∀ j, k ≤ j → j < i → predicate val (array j) = true) →
      (0 < k → predicate val (array (k - 1)) = false) →
      (insertShift predicate val array i).2 = k ∧
      ∀ j, (insertShift predicate val array i).1 j =
        if k < j ∧ j ≤ i then array (j - 1) else array j := by
  intro i
  induction i with
  | zero =>
    intro k array hk _ _
    have hk0 : k = 0 := by omega
    subst hk0
    refine ⟨rfl, fun j => ?_⟩
    rw [if_neg (by omega)]
    rfl
  | succ i ih =>
    intro k array hk hall hstop
    by_cases he : k = i + 1
    · subst he
      have hp := hstop (by omega)
      simp only [Nat.add_sub_cancel] at hp
      simp only [insertShift, hp, Bool.false_eq_true, ↓reduceIte, true_and]
      intro j
      rw [if_neg (by omega)]
    · have hp := hall i (by omega) (by omega)
      obtain ⟨h₁, h₂⟩ := ih k (Function.update array (i + 1) (array i)) (by omega)
        (fun j hj hji => by
          rw [Function.update_of_ne (by omega)]
          exact hall j hj (by omega))
        (fun h => by
          rw [Function.update_of_ne (by omega)]
          exact hstop h)
      simp only [insertShift, hp, ↓reduceIte]
      refine ⟨h₁, fun j => ?_⟩
      rw [h₂ j]
      by_cases hj : j = i + 1
      · subst hj
        rw [if_neg (by omega), if_pos (by omega), Function.update_self, Nat.add_sub_cancel]
      · by_cases hr : k < j ∧ j ≤ i
        · rw [if_pos hr, if_pos (by omega), Function.update_of_ne (by omega)]
        · rw [if_neg hr, if_neg (by omega), Function.update_of_ne hj]

/-- A value that goes after `l` and before `r` is put between them. -/
theorem insert_entries {a : OrderedArray} {l r : List Nat} {val : Nat} (he : a.entries = l ++ r)
    (hroom : a.size < a.maxSize) (hl : ∀ x ∈ l, a.predicate val x = false)
    (hr : ∀ x ∈ r, a.predicate val x = true) :
    (a.insert val).1.entries = l ++ val :: r ∧ (a.insert val).2 = l.length := by
  have hsize : a.size = l.length + r.length := by
    rw [← a.entries_length, he, List.length_append]
  have hlen : (l ++ r).length = a.size := by rw [List.length_append, hsize]
  obtain ⟨hidx, hval⟩ := insertShift_spec a.predicate val a.size l.length a.array (by omega)
    (fun j h₁ h₂ => by
      rw [array_of_entries he (by omega), List.getElem_append_right h₁]
      exact hr _ (List.getElem_mem _))
    (fun h => by
      rw [array_of_entries he (by omega), List.getElem_append_left (by omega)]
      exact hl _ (List.getElem_mem _))
  simp only [insert, if_pos hroom]
  refine ⟨entries_eq (by simp [hsize]; omega) fun i hi => ?_, hidx⟩
  simp only [List.length_append, List.length_cons] at hi
  simp only [hidx]
  rcases Nat.lt_trichotomy i l.length with h | h | h
  · rw [Function.update_of_ne (by omega), hval, if_neg (by omega),
      array_of_entries he (by omega), List.getElem_append_left h, List.getElem_append_left h]
  · subst h
    rw [Function.update_self, List.getElem_append_right (Nat.le_refl _)]
    simp
  · rw [Function.update_of_ne (by omega), hval, if_pos (by omega),
      array_of_entries he (by omega), List.getElem_append_right (by omega),
      List.getElem_append_right (by omega), List.getElem_cons]
    rw [dif_neg (by omega)]
    exact getElem_congr_idx (by omega)

/-- A full array is left alone. -/
theorem insert_full {a : OrderedArray} (h : a.maxSize ≤ a.size) (val : Nat) :
    a.insert val = (a, 0) := by
  unfold insert
  rw [if_neg (by omega)]

@[simp] theorem insert_maxSize (a : OrderedArray) (val : Nat) :
    (a.insert val).1.maxSize = a.maxSize := by
  unfold insert
  split <;> rfl

@[simp] theorem insert_predicate (a : OrderedArray) (val : Nat) :
    (a.insert val).1.predicate = a.predicate := by
  unfold insert
  split <;> rfl

/-! ## Removal -/

theorem removeShift_spec : ∀ (n i : Nat) (array : Nat → Nat),
    (removeShift array i n).2 = i + n ∧
    ∀ j, (removeShift array i n).1 j = if i ≤ j ∧ j < i + n then array (j + 1) else array j := by
  intro n
  induction n with
  | zero =>
    intro i array
    refine ⟨rfl, fun j => ?_⟩
    rw [if_neg (by omega)]
    rfl
  | succ n ih =>
    intro i array
    obtain ⟨h₁, h₂⟩ := ih (i + 1) (Function.update array i (array (i + 1)))
    refine ⟨by simp only [removeShift, h₁]; omega, fun j => ?_⟩
    simp only [removeShift, h₂]
    by_cases hj : j = i
    · subst hj
      rw [if_neg (by omega), if_pos (by omega), Function.update_self]
    · by_cases hr : i + 1 ≤ j ∧ j < i + 1 + n
      · rw [if_pos hr, if_pos (by omega), Function.update_of_ne (by omega)]
      · rw [if_neg hr, if_neg (by omega), Function.update_of_ne hj]

/-- Removing by index takes that entry out. -/
theorem remove_entries {a : OrderedArray} {l r : List Nat} {x : Nat} (he : a.entries = l ++ x :: r)
    (hb : a.size < 4294967296) : (a.remove l.length).entries = l ++ r := by
  have hsize : a.size = l.length + r.length + 1 := by
    rw [← a.entries_length, he, List.length_append, List.length_cons]
    omega
  have hsub : wsub a.size 1 = l.length + r.length := by
    rw [wsub_of_le (by omega) hb]
    omega
  obtain ⟨hidx, hval⟩ := removeShift_spec r.length l.length a.array
  have hlen : (l ++ x :: r).length = a.size := by rw [← he, entries_length]
  simp only [remove, hsub, Nat.add_sub_cancel_left, hidx]
  refine entries_eq (by simp only [List.length_append]) fun i hi => ?_
  simp only [List.length_append] at hi ⊢
  rw [Function.update_of_ne (by omega), hval]
  by_cases h : i < l.length
  · rw [if_neg (by omega), array_of_entries he (by omega), List.getElem_append_left h,
      List.getElem_append_left h]
  · rw [if_pos (by omega), array_of_entries he (by omega), List.getElem_append_right (by omega),
      List.getElem_append_right (by omega), List.getElem_cons]
    rw [dif_neg (by omega)]
    exact getElem_congr_idx (by omega)

@[simp] theorem remove_maxSize (a : OrderedArray) (i : Nat) : (a.remove i).maxSize = a.maxSize := rfl

@[simp] theorem remove_predicate (a : OrderedArray) (i : Nat) :
    (a.remove i).predicate = a.predicate := rfl

/-! ## Search -/

theorem findFrom_eq {array : Nat → Nat} {val k : Nat} (hk : array k = val) :
    ∀ n i, i ≤ k → k < i + n → (∀ j, i ≤ j → j < k → array j ≠ val) →
      findFrom array val i n = k := by
  intro n
  induction n with
  | zero => intro i h₁ h₂ _; omega
  | succ n ih =>
    intro i h₁ h₂ hne
    rw [findFrom]
    by_cases he : i = k
    · subst he
      rw [if_pos hk]
    · rw [if_neg (hne i (Nat.le_refl _) (by omega))]
      exact ih (i + 1) (by omega) (by omega) fun j hj hjk => hne j (by omega) hjk

/-- The search returns the index of the first entry with the value. -/
theorem find_entries {a : OrderedArray} {l r : List Nat} {val : Nat}
    (he : a.entries = l ++ val :: r) (hl : val ∉ l) : a.find val = l.length := by
  have hsize : a.size = l.length + r.length + 1 := by
    rw [← a.entries_length, he, List.length_append, List.length_cons]
    omega
  have hlen : (l ++ val :: r).length = a.size := by rw [← he, entries_length]
  apply findFrom_eq
  · rw [array_of_entries he (by omega), List.getElem_append_right (Nat.le_refl _)]
    simp
  · omega
  · omega
  · intro j _ hj hval
    apply hl
    rw [← hval, array_of_entries he (by omega), List.getElem_append_left hj]
    exact List.getElem_mem _

end OrderedArray

end BrownieOS.Core
