import BrownieOS.Core.OrderedArray
import BrownieOS.Lib.Run
import Mathlib.Data.Multiset.AddSub

/-!
# The ordered array as a sorted multiset

The slots below `size` spell a sorted list. What it is for is the multiset of the values put
in and not yet taken out; the slots behind stay zero up to the capacity.
-/
namespace BrownieOS.Core

open BrownieOS.Lib BrownieOS.Lib.Word32

inductive ArrayOp where
  | insert (val : Nat)
  | remove (i : Nat)

/-- An array with the values inserted and removed so far. -/
structure ArrayRun where
  array : OrderedArray
  inserted : Multiset Nat
  removed : Multiset Nat

/-- One call: any insertion, or the removal of an index below the size. -/
def ArrayStep (t : ArrayRun) : ArrayOp → ArrayRun → Prop
  | .insert val, t' => t' =
      { t with
        array := (t.array.insert val).1
        inserted := if t.array.size < t.array.maxSize then val ::ₘ t.inserted else t.inserted }
  | .remove i, t' => i < t.array.size ∧ t' =
      { t with array := t.array.remove i, removed := t.array.get i ::ₘ t.removed }

/-- The array stands for the multiset `M`, in storage that held `slots`. -/
structure Represents (slots : Nat → Nat) (maxSize : Nat) (a : OrderedArray) (M : Multiset Nat) :
    Prop where
  capacity : a.maxSize = maxSize
  order : a.predicate = lessPredicate
  sorted : a.entries.Pairwise (· ≤ ·)
  content : (a.entries : Multiset Nat) = M
  bounded : a.size ≤ maxSize
  tail : ∀ j, a.size ≤ j → j < maxSize → a.array j = 0
  beyond : ∀ j, maxSize ≤ j → a.array j = slots j

/-- An insertion puts the value behind all that are not above it. -/
structure InsertedAt (a a' : OrderedArray) (val idx : Nat) : Prop where
  size : a'.size = a.size + 1
  inside : idx < a'.size
  value : a'.get idx = val
  below : ∀ j < idx, a'.get j ≤ val
  above : ∀ j, idx < j → j < a'.size → val < a'.get j

/-- The index of the first slot that holds the value, or none. -/
structure FindsPosition (a : OrderedArray) (val : Nat) : Prop where
  absent : a.find val = 0xFFFFFFFF ↔ val ∉ a.entries
  first : val ∈ a.entries → a.find val < a.size ∧ a.get (a.find val) = val ∧
    ∀ j < a.find val, a.get j ≠ val

section Represents

variable {slots : Nat → Nat} {maxSize : Nat} {a : OrderedArray} {M : Multiset Nat} {l r : List Nat}
  {val i j : Nat}

@[simp] theorem lessPredicate_eq_true {x y : Nat} : lessPredicate x y = true ↔ x < y := by
  simp [lessPredicate]

@[simp] theorem lessPredicate_eq_false {x y : Nat} : lessPredicate x y = false ↔ y ≤ x := by
  simp [lessPredicate]

/-- A sorted list is what is not above the value, and then what is. -/
theorem sorted_split (hl : l.Pairwise (· ≤ ·)) (val : Nat) :
    ∃ below above, l = below ++ above ∧ (∀ x ∈ below, x ≤ val) ∧ ∀ x ∈ above, val < x := by
  induction l with
  | nil => exact ⟨[], [], rfl, fun x hx => absurd hx List.not_mem_nil,
      fun x hx => absurd hx List.not_mem_nil⟩
  | cons y l ih =>
    obtain ⟨hy, hl'⟩ := List.pairwise_cons.1 hl
    by_cases h : y ≤ val
    · obtain ⟨below, above, rfl, hbelow, habove⟩ := ih hl'
      exact ⟨y :: below, above, rfl, List.forall_mem_cons.2 ⟨h, hbelow⟩, habove⟩
    · refine ⟨[], y :: l, rfl, fun x hx => absurd hx List.not_mem_nil, fun x hx => ?_⟩
      rcases List.mem_cons.1 hx with rfl | hx
      · omega
      · have := hy x hx
        omega

theorem sorted_insert {below above : List Nat} (hl : (below ++ above).Pairwise (· ≤ ·))
    (hbelow : ∀ x ∈ below, x ≤ val) (habove : ∀ x ∈ above, val < x) :
    (below ++ val :: above).Pairwise (· ≤ ·) := by
  obtain ⟨h₁, h₂, h₃⟩ := List.pairwise_append.1 hl
  refine List.pairwise_append.2 ⟨h₁, List.pairwise_cons.2 ⟨fun x hx => ?_, h₂⟩, fun x hx y hy => ?_⟩
  · exact Nat.le_of_lt (habove x hx)
  · rcases List.mem_cons.1 hy with rfl | hy
    · exact hbelow x hx
    · exact h₃ x hx y hy

theorem represents_init (hfit : 4 * maxSize < 4294967296) :
    Represents slots maxSize (OrderedArray.initPlace slots maxSize) 0 := by
  have hcleared : wmul maxSize 4 / 4 = maxSize := by
    rw [wmul_of_lt (by omega)]
    omega
  refine ⟨rfl, rfl, List.Pairwise.nil, rfl, Nat.zero_le _, fun j _ hj => ?_, fun j hj => ?_⟩
  · simp only [OrderedArray.initPlace, hcleared]
    rw [if_pos hj]
  · simp only [OrderedArray.initPlace, hcleared]
    rw [if_neg (by omega)]

/-- An insertion with room: the entries, the index, and the slots behind. -/
theorem Represents.insert_split (h : Represents slots maxSize a M) (hroom : a.size < maxSize)
    {below above : List Nat} (he : a.entries = below ++ above) (hbelow : ∀ x ∈ below, x ≤ val)
    (habove : ∀ x ∈ above, val < x) :
    (a.insert val).1.entries = below ++ val :: above ∧ (a.insert val).2 = below.length ∧
      (a.insert val).1.size = a.size + 1 ∧
        ∀ j, a.size < j → (a.insert val).1.array j = a.array j := by
  have hroom' : a.size < a.maxSize := by rw [h.capacity]; exact hroom
  have hl : ∀ x ∈ below, a.predicate val x = false := by
    intro x hx
    rw [h.order, lessPredicate_eq_false]
    exact hbelow x hx
  have hr : ∀ x ∈ above, a.predicate val x = true := by
    intro x hx
    rw [h.order, lessPredicate_eq_true]
    exact habove x hx
  obtain ⟨hentries, hidx⟩ := OrderedArray.insert_entries he hroom' hl hr
  have hsize : a.size = below.length + above.length := by
    rw [← a.entries_length, he, List.length_append]
  refine ⟨hentries, hidx, ?_, fun j hj => ?_⟩
  · unfold OrderedArray.insert
    rw [if_pos hroom']
  · obtain ⟨hstop, hslots⟩ := OrderedArray.insertShift_spec a.predicate val a.size below.length
      a.array (by omega) (fun k h₁ h₂ => by
        rw [OrderedArray.array_of_entries he (by rw [List.length_append]; omega),
          List.getElem_append_right h₁]
        exact hr _ (List.getElem_mem _)) (fun hpos => by
        rw [OrderedArray.array_of_entries he (by rw [List.length_append]; omega),
          List.getElem_append_left (by omega)]
        exact hl _ (List.getElem_mem _))
    unfold OrderedArray.insert
    rw [if_pos hroom']
    dsimp only
    rw [hstop, Function.update_of_ne (by omega), hslots, if_neg (by omega)]

/-- A full array is left alone. -/
theorem Represents.insert_full (h : Represents slots maxSize a M) (hfull : maxSize ≤ a.size) :
    a.insert val = (a, 0) :=
  OrderedArray.insert_full (by rw [h.capacity]; exact hfull) val

theorem Represents.insert (h : Represents slots maxSize a M) (val : Nat) :
    Represents slots maxSize (a.insert val).1 (if a.size < a.maxSize then val ::ₘ M else M) := by
  rw [h.capacity]
  split
  · rename_i hroom
    obtain ⟨below, above, he, hbelow, habove⟩ := sorted_split h.sorted val
    obtain ⟨hentries, -, hsize, hslots⟩ := h.insert_split hroom he hbelow habove
    have hsorted := h.sorted
    rw [he] at hsorted
    refine ⟨by rw [OrderedArray.insert_maxSize]; exact h.capacity,
      by rw [OrderedArray.insert_predicate]; exact h.order, ?_, ?_, by omega, fun j hj hj' => ?_,
      fun j hj => ?_⟩
    · rw [hentries]
      exact sorted_insert hsorted hbelow habove
    · rw [hentries, ← h.content, he, Multiset.cons_coe]
      exact Multiset.coe_eq_coe.2 List.perm_middle
    · rw [hslots j (by omega)]
      exact h.tail j (by omega) hj'
    · rw [hslots j (by omega)]
      exact h.beyond j hj
  · rename_i hfull
    rw [h.insert_full (by omega)]
    exact h

/-- Where the value comes to stand. -/
theorem Represents.insertedAt (h : Represents slots maxSize a M) (hroom : a.size < maxSize)
    (val : Nat) : InsertedAt a (a.insert val).1 val (a.insert val).2 := by
  obtain ⟨below, above, he, hbelow, habove⟩ := sorted_split h.sorted val
  obtain ⟨hentries, hidx, hsize, -⟩ := h.insert_split hroom he hbelow habove
  have hlen : a.size = below.length + above.length := by
    rw [← a.entries_length, he, List.length_append]
  have hlen' : (below ++ val :: above).length = a.size + 1 := by
    rw [List.length_append, List.length_cons]
    omega
  refine ⟨hsize, by omega, ?_, fun j hj => ?_, fun j hj hj' => ?_⟩
  · rw [OrderedArray.get, hidx, OrderedArray.array_of_entries hentries (by omega),
      List.getElem_append_right (Nat.le_refl _)]
    simp
  · rw [OrderedArray.get, OrderedArray.array_of_entries hentries (by omega),
      List.getElem_append_left (by omega)]
    exact hbelow _ (List.getElem_mem _)
  · rw [OrderedArray.get, OrderedArray.array_of_entries hentries (by omega),
      List.getElem_append_right (by omega), List.getElem_cons, dif_neg (by omega)]
    exact habove _ (List.getElem_mem _)

/-- The entries before an index, at it and behind it. -/
theorem entries_split (hi : i < a.size) :
    ∃ l r, a.entries = l ++ a.get i :: r ∧ l.length = i := by
  have hi' : i < a.entries.length := by rwa [a.entries_length]
  refine ⟨a.entries.take i, a.entries.drop (i + 1), ?_, List.length_take_of_le (by omega)⟩
  rw [OrderedArray.get, ← a.entries_getElem hi', List.getElem_cons_drop, List.take_append_drop]

theorem Represents.remove (h : Represents slots maxSize a M) (hbound : maxSize < 4294967296)
    (hi : i < a.size) : a.get i ∈ M ∧ Represents slots maxSize (a.remove i) (M.erase (a.get i)) := by
  have hle := h.bounded
  obtain ⟨l, r, he, rfl⟩ := entries_split hi
  have hentries := OrderedArray.remove_entries he (by omega)
  have hlen : a.size = l.length + r.length + 1 := by
    rw [← a.entries_length, he, List.length_append, List.length_cons]
    omega
  have hsub : wsub a.size 1 = l.length + r.length := by
    rw [wsub_of_le (by omega) (by omega)]
    omega
  have hslots : ∀ j, l.length + r.length ≤ j → (a.remove l.length).array j =
      if j = l.length + r.length then 0 else a.array j := by
    intro j hj
    obtain ⟨hstop, hshift⟩ := OrderedArray.removeShift_spec r.length l.length a.array
    simp only [OrderedArray.remove, hsub, Nat.add_sub_cancel_left, hstop]
    split
    · rename_i hj
      rw [hj, Function.update_self]
    · rename_i hne
      rw [Function.update_of_ne hne, hshift, if_neg (by omega)]
  have hmem : a.get l.length ∈ M := by
    rw [← h.content, he]
    exact Multiset.mem_coe.2 (List.mem_append_right l List.mem_cons_self)
  have hsize : (a.remove l.length).size = l.length + r.length := hsub
  have hsorted := h.sorted
  rw [he] at hsorted
  refine ⟨hmem, h.capacity, h.order, ?_, ?_, by omega, fun j hj hj' => ?_, fun j hj => ?_⟩
  · rw [hentries]
    exact hsorted.sublist (List.Sublist.append_left (List.sublist_cons_self _ r) l)
  · have hcons : a.get l.length ::ₘ ((l ++ r : List Nat) : Multiset Nat) = M := by
      rw [← h.content, he, Multiset.cons_coe]
      exact Multiset.coe_eq_coe.2 List.perm_middle.symm
    rw [hentries, ← hcons, Multiset.erase_cons_head]
  · rw [hslots j (by omega)]
    split
    · rfl
    · exact h.tail j (by omega) hj'
  · rw [hslots j (by omega), if_neg (by omega)]
    exact h.beyond j hj

theorem findFrom_absent (array : Nat → Nat) (val : Nat) : ∀ n i,
    (∀ j, i ≤ j → j < i + n → array j ≠ val) → OrderedArray.findFrom array val i n = 0xFFFFFFFF := by
  intro n
  induction n with
  | zero => exact fun _ _ => rfl
  | succ n ih =>
    intro i hne
    rw [OrderedArray.findFrom, if_neg (hne i (Nat.le_refl i) (by omega))]
    exact ih (i + 1) fun j h₁ h₂ => hne j (by omega) (by omega)

theorem mem_entries : val ∈ a.entries ↔ ∃ j < a.size, a.get j = val := by
  simp [OrderedArray.entries, OrderedArray.get]

theorem findsPosition (hsize : a.size < 0xFFFFFFFF) (val : Nat) : FindsPosition a val := by
  by_cases hmem : val ∈ a.entries
  · obtain ⟨l, r, he, hl⟩ := List.eq_append_cons_of_mem hmem
    have hfind := OrderedArray.find_entries he hl
    have hlen : a.size = l.length + r.length + 1 := by
      rw [← a.entries_length, he, List.length_append, List.length_cons]
      omega
    have hlen' : (l ++ val :: r).length = a.size := by rw [← he, a.entries_length]
    refine ⟨⟨fun h => ?_, fun h => absurd hmem h⟩, fun _ => ⟨by omega, ?_, fun j hj => ?_⟩⟩
    · omega
    · rw [OrderedArray.get, hfind, OrderedArray.array_of_entries he (by omega),
        List.getElem_append_right (Nat.le_refl _)]
      simp
    · rw [hfind] at hj
      rw [OrderedArray.get, OrderedArray.array_of_entries he (by omega), List.getElem_append_left hj]
      exact fun heq => hl (heq ▸ List.getElem_mem _)
  · have hnone : a.find val = 0xFFFFFFFF := by
      refine findFrom_absent a.array val a.size 0 fun j _ hj heq => ?_
      exact hmem (mem_entries.2 ⟨j, by omega, heq⟩)
    exact ⟨⟨fun _ => hmem, fun _ => hnone⟩, fun h => absurd h hmem⟩

end Represents

/-! ## Runs -/

/-- The array is the sorted list of the values inserted and not removed, and each call does to
it what it says. -/
structure RefinesMultiset (slots : Nat → Nat) (maxSize : Nat) (t : ArrayRun) : Prop where
  sorted : t.array.entries.Pairwise (· ≤ ·)
  removed : t.removed ≤ t.inserted
  content : (t.array.entries : Multiset Nat) = t.inserted - t.removed
  bounded : t.array.size ≤ maxSize
  tail : ∀ j, t.array.size ≤ j → j < maxSize → t.array.array j = 0
  beyond : ∀ j, maxSize ≤ j → t.array.array j = slots j
  full : t.array.size = maxSize → ∀ val, t.array.insert val = (t.array, 0)
  inserts : t.array.size < maxSize → ∀ val,
    InsertedAt t.array (t.array.insert val).1 val (t.array.insert val).2
  finds : ∀ val, FindsPosition t.array val

/-- What a call keeps: what the array stands for, with what was removed, is what was inserted. -/
def Balanced (slots : Nat → Nat) (maxSize : Nat) (t : ArrayRun) : Prop :=
  ∃ M, Represents slots maxSize t.array M ∧ M + t.removed = t.inserted

theorem Balanced.step {slots : Nat → Nat} {maxSize : Nat} {t t' : ArrayRun} {op : ArrayOp}
    (hbound : maxSize < 4294967296) (h : Balanced slots maxSize t) (hstep : ArrayStep t op t') :
    Balanced slots maxSize t' := by
  obtain ⟨M, hM, hsum⟩ := h
  cases op with
  | insert val =>
    obtain rfl := hstep
    refine ⟨_, hM.insert val, ?_⟩
    dsimp only
    split
    · rw [Multiset.cons_add, hsum]
    · exact hsum
  | remove i =>
    obtain ⟨hi, rfl⟩ := hstep
    obtain ⟨hmem, hM'⟩ := hM.remove hbound hi
    refine ⟨_, hM', ?_⟩
    dsimp only
    rw [Multiset.add_cons, ← Multiset.cons_add, Multiset.cons_erase hmem, hsum]

/-- After any calls on an array set up in place. -/
theorem ordered_array_refines (slots : Nat → Nat) (maxSize : Nat) (hfit : 4 * maxSize < 4294967296)
    {ops : List ArrayOp} {t : ArrayRun}
    (hrun : Run ArrayStep ⟨OrderedArray.initPlace slots maxSize, 0, 0⟩ ops t) :
    RefinesMultiset slots maxSize t := by
  obtain ⟨M, hM, hsum⟩ := hrun.invariant (I := Balanced slots maxSize)
    (fun t op t' h hstep => h.step (by omega) hstep) ⟨0, represents_init hfit, rfl⟩
  have hle := hM.bounded
  refine ⟨hM.sorted, ?_, ?_, hle, hM.tail, hM.beyond,
    fun hfull _ => hM.insert_full (by omega), fun hroom val => hM.insertedAt hroom val, fun val =>
      findsPosition (by omega) val⟩
  · rw [← hsum]
    exact Multiset.le_add_left _ _
  · rw [hM.content, ← hsum, Multiset.add_sub_cancel_right]

theorem ordered_array_refines_two : ∃ t,
    Run ArrayStep ⟨OrderedArray.initPlace (fun _ => 7) 2, 0, 0⟩
      [.insert 5, .insert 3, .insert 4, .remove 0] t ∧ RefinesMultiset (fun _ => 7) 2 t ∧
        t.array.entries = [5] := by
  have hrun : Run ArrayStep ⟨OrderedArray.initPlace (fun _ => 7) 2, 0, 0⟩
      [.insert 5, .insert 3, .insert 4, .remove 0] _ :=
    .cons rfl (.cons rfl (.cons rfl (.single ⟨by decide, rfl⟩)))
  exact ⟨_, hrun, ordered_array_refines (fun _ => 7) 2 (by decide) hrun, by decide⟩

end BrownieOS.Core
