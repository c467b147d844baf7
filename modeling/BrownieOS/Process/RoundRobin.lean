import BrownieOS.Lib.Cycle
import BrownieOS.Process.Scheduler
import Mathlib.Data.List.Rotate

/-!
# Round-robin order of `pick_next_proc`

The two passes of the scan are one search of the table rotated to start after the
current slot. On the runnable processes, listed in slot order, the choice is then the
cyclic successor, and iterating it goes round the list.
-/
namespace BrownieOS.Process

open BrownieOS.Lib BrownieOS.Mm

/-- The processes `pick_next_proc` may choose: running ones with a user code selector. -/
def Schedulable (s : Sched) (p : Nat) : Prop :=
  p ≠ 0 ∧ (s.procs p).procstate = .running ∧ (s.procs p).context.cs &&& 0x3 = 0x3

instance (s : Sched) (p : Nat) : Decidable (Schedulable s p) := inferInstanceAs (Decidable (_ ∧ _))

/-- `proc_list` as a list. -/
def Sched.slots (s : Sched) : List Nat := (List.range maxProc).map s.procList

/-- The schedulable entries of `proc_list` in slot order. -/
def Sched.runQueue (s : Sched) : List Nat := s.slots.filter fun p => decide (Schedulable s p)

/-- No two non-NULL slots hold one process. -/
def Sched.DistinctSlots (s : Sched) : Prop :=
  ∀ i < maxProc, ∀ j < maxProc, s.procList i ≠ 0 → s.procList i = s.procList j → i = j

/-- The slot after that of `cur`, or slot 0 when `cur` is not in the table. -/
def Sched.startSlot (s : Sched) (cur : Nat) : Nat :=
  match findCurIdx s.procList cur 0 maxProc with
  | some i => i + 1
  | none => 0

/-- What the scan looks for. -/
def Sched.wanted (s : Sched) (cur p : Nat) : Bool := decide (Schedulable s p ∧ p ≠ cur)

variable {s : Sched} {cur : Nat}

/-! ## The scan as a search -/

theorem pickScan_eq_find : ∀ n i,
    pickScan s cur i n = ((List.range' i n).map s.procList).find? (s.wanted cur) := by
  intro n
  induction n with
  | zero => exact fun i => rfl
  | succ n ih =>
    intro i
    rw [pickScan, List.range'_succ, List.map_cons, List.find?_cons, ← ih (i + 1)]
    simp only [Sched.wanted, Schedulable]
    by_cases h0 : s.procList i = 0
    · simp [h0]
    by_cases hcur : s.procList i = cur
    · simp [hcur]
    by_cases hstate : (s.procs (s.procList i)).procstate = .running
    · by_cases huser : (s.procs (s.procList i)).context.cs &&& 0x3 = 0x3
      · simp [h0, hcur, hstate, huser]
      · simp [h0, hcur, hstate, huser]
    · simp [h0, hcur, hstate]

theorem drop_slots (s : Sched) (k : Nat) :
    s.slots.drop k = (List.range' k (maxProc - k)).map s.procList := by
  rw [Sched.slots, ← List.map_drop, List.range_eq_range', List.drop_range']
  simp

theorem startSlot_le (s : Sched) (cur : Nat) : s.startSlot cur ≤ maxProc := by
  rw [Sched.startSlot]
  split
  · rename_i k hk
    have := findCurIdx_lt _ _ hk
    omega
  · exact Nat.zero_le _

theorem slots_length (s : Sched) : s.slots.length = maxProc := by simp [Sched.slots]

/-- Both passes together search the table from the start slot on, once round. -/
theorem pickNextProc_eq_find (s : Sched) (cur : Nat) : pickNextProc s cur =
    ((s.slots.rotate (s.startSlot cur)).find? (s.wanted cur)).getD 0 := by
  have hle := startSlot_le s cur
  have hfirst : pickScan s cur (s.startSlot cur) (maxProc - s.startSlot cur) =
      (s.slots.drop (s.startSlot cur)).find? (s.wanted cur) := by
    rw [pickScan_eq_find, drop_slots]
  have hsecond : pickScan s cur 0 maxProc = s.slots.find? (s.wanted cur) := by
    rw [pickScan_eq_find, Sched.slots, List.range_eq_range']
  have hall : s.slots.find? (s.wanted cur) =
      ((s.slots.take (s.startSlot cur)).find? (s.wanted cur)).or
        ((s.slots.drop (s.startSlot cur)).find? (s.wanted cur)) := by
    rw [← List.find?_append, List.take_append_drop]
  rw [List.rotate_eq_drop_append_take (by rw [slots_length]; exact hle), List.find?_append, ← hfirst]
  change (match pickScan s cur (s.startSlot cur) (maxProc - s.startSlot cur) with
    | some p => p
    | none => match pickScan s cur 0 maxProc with
      | some p => p
      | none => 0) = _
  cases hpass : pickScan s cur (s.startSlot cur) (maxProc - s.startSlot cur) with
  | some p => rfl
  | none =>
    rw [hsecond, hall, ← hfirst, hpass]
    cases (s.slots.take (s.startSlot cur)).find? (s.wanted cur) with
    | some p => rfl
    | none => rfl

/-! ## The first in cyclic slot order -/

theorem slots_getElem (s : Sched) {i : Nat} (h : i < s.slots.length) : s.slots[i] = s.procList i := by
  simp [Sched.slots]

/-- The `d`-th slot after the start slot, cyclically. -/
def Sched.slotAfter (s : Sched) (cur d : Nat) : Nat := s.procList ((s.startSlot cur + d) % maxProc)

theorem rotate_getElem? (s : Sched) (cur : Nat) {d : Nat} (hd : d < maxProc) :
    (s.slots.rotate (s.startSlot cur))[d]? = some (s.slotAfter cur d) := by
  rw [List.getElem?_rotate (by rw [slots_length]; exact hd), slots_length,
    List.getElem?_eq_getElem (by rw [slots_length]; exact Nat.mod_lt _ (by decide)), slots_getElem,
    Sched.slotAfter, Nat.add_comm]

/-- NULL exactly when nothing else can run; else the first such entry, cyclically. -/
theorem pickNextProc_first (s : Sched) (cur : Nat) :
    (pickNextProc s cur = 0 ↔ ∀ p ∈ s.runQueue, p = cur) ∧
    (pickNextProc s cur ≠ 0 → ∃ d < maxProc, pickNextProc s cur = s.slotAfter cur d ∧
      s.wanted cur (s.slotAfter cur d) = true ∧
      ∀ e < d, s.wanted cur (s.slotAfter cur e) = false) := by
  have hmem : ∀ p, p ∈ s.slots.rotate (s.startSlot cur) ↔ p ∈ s.slots := fun p => List.mem_rotate
  rw [pickNextProc_eq_find]
  cases hfind : (s.slots.rotate (s.startSlot cur)).find? (s.wanted cur) with
  | none =>
    have hnone := List.find?_eq_none.mp hfind
    refine ⟨⟨fun _ p hp => ?_, fun _ => rfl⟩, fun h => absurd rfl h⟩
    obtain ⟨hin, hp⟩ := List.mem_filter.mp hp
    by_contra hne
    have := hnone p ((hmem p).mpr hin)
    simp only [Sched.wanted, decide_eq_true_eq] at this hp
    exact this ⟨hp, hne⟩
  | some p =>
    obtain ⟨hp, d, hd, hget, hfirst⟩ := List.find?_eq_some_iff_getElem.mp hfind
    have hsched : Schedulable s p ∧ p ≠ cur := by simpa [Sched.wanted] using hp
    have hin : p ∈ s.slots := (hmem p).mp (hget ▸ List.getElem_mem hd)
    rw [List.length_rotate, slots_length] at hd
    have hat : p = s.slotAfter cur d := by
      have := rotate_getElem? s cur hd
      rw [List.getElem?_eq_getElem (by rw [List.length_rotate, slots_length]; exact hd), hget] at this
      exact Option.some.inj this
    constructor
    · constructor
      · intro h
        exact absurd h hsched.1.1
      · intro h
        exact absurd (h p (List.mem_filter.mpr ⟨hin, by simpa using hsched.1⟩)) hsched.2
    · intro _
      refine ⟨d, hd, hat, hat ▸ hp, fun e he => ?_⟩
      have hnot := hfirst e he
      have hlt : e < maxProc := Nat.lt_trans he hd
      have hbound : e < (s.slots.rotate (s.startSlot cur)).length := by
        rw [List.length_rotate, slots_length]
        exact hlt
      have hget' : (s.slots.rotate (s.startSlot cur))[e] = s.slotAfter cur e := by
        have := rotate_getElem? s cur hlt
        rw [List.getElem?_eq_getElem hbound] at this
        exact Option.some.inj this
      rw [hget'] at hnot
      simpa using hnot

/-! ## Going round -/

theorem findCurIdx_append {procList : Nat → Nat} {a b : List Nat} : ∀ n i,
    (List.range' i n).map procList = a ++ cur :: b → cur ∉ a →
    findCurIdx procList cur i n = some (i + a.length) := by
  induction a with
  | nil =>
    intro n i h _
    cases n with
    | zero => simp at h
    | succ n =>
      rw [List.range'_succ, List.map_cons, List.nil_append, List.cons.injEq] at h
      rw [findCurIdx, if_pos h.1, List.length_nil, Nat.add_zero]
  | cons x a ih =>
    intro n i h hnot
    cases n with
    | zero => simp at h
    | succ n =>
      rw [List.range'_succ, List.map_cons, List.cons_append, List.cons.injEq] at h
      have hx : procList i ≠ cur := by
        intro he
        exact hnot (by rw [← h.1, he]; exact List.mem_cons_self)
      rw [findCurIdx, if_neg hx, ih n (i + 1) h.2 fun hin => hnot (List.mem_cons_of_mem _ hin)]
      rw [List.length_cons]
      congr 1
      omega

/-- In a table with distinct entries a process other than NULL stands once. -/
theorem Sched.DistinctSlots.split (hd : s.DistinctSlots) {a b : List Nat} (h : s.slots = a ++ cur :: b)
    (h0 : cur ≠ 0) : cur ∉ a ∧ cur ∉ b := by
  have hlen := slots_length s
  have hat : ∀ i (hi : i < s.slots.length), s.slots[i] = cur → i = a.length := by
    intro i hi hcur
    have hmid : a.length < s.slots.length := by
      rw [h, List.length_append, List.length_cons]
      omega
    have hcur' : s.slots[a.length] = cur := by
      simp [h]
    rw [slots_getElem] at hcur hcur'
    exact hd i (by omega) a.length (by omega) (by rw [hcur]; exact h0) (hcur.trans hcur'.symm)
  constructor
  · intro hin
    obtain ⟨i, hi, hget⟩ := List.getElem_of_mem hin
    have hlt : i < s.slots.length := by
      rw [h, List.length_append]
      omega
    have := hat i hlt (by simp [h, List.getElem_append_left hi, hget])
    omega
  · intro hin
    obtain ⟨i, hi, hget⟩ := List.getElem_of_mem hin
    have hlt : a.length + 1 + i < s.slots.length := by
      rw [h, List.length_append, List.length_cons]
      omega
    have := hat (a.length + 1 + i) hlt (by
      simp only [h]
      rw [List.getElem_append_right (by omega)]
      simp [show a.length + 1 + i - a.length = i + 1 by omega, hget])
    omega

theorem runQueue_nodup (hd : s.DistinctSlots) : s.runQueue.Nodup := by
  rw [List.Nodup, Sched.runQueue, List.pairwise_filter, Sched.slots, List.pairwise_map]
  refine List.pairwise_lt_range.imp_of_mem fun {i j} hi hj hlt hsi _ he => ?_
  have hi' : i < maxProc := List.mem_range.mp hi
  have hj' : j < maxProc := List.mem_range.mp hj
  have h0 : s.procList i ≠ 0 := (of_decide_eq_true hsi).1
  have := hd i hi' j hj' h0 he
  omega

/-- From a runnable process the choice is its cyclic successor among the runnable ones. -/
theorem pickNextProc_goesRound (hd : s.DistinctSlots) (hk : 2 ≤ s.runQueue.length) :
    GoesRound (pickNextProc s) s.runQueue := by
  refine goesRound_of_split fun a x b hsplit => ?_
  have hx : x ∈ s.runQueue := by rw [hsplit]; simp
  obtain ⟨hin, hsched⟩ := List.mem_filter.mp hx
  have hx0 : x ≠ 0 := (of_decide_eq_true hsched).1
  obtain ⟨l, r, hslots⟩ := List.append_of_mem hin
  obtain ⟨hl, hr⟩ := hd.split hslots hx0
  -- the scan starts right after the one slot of `x`
  have hstart : s.startSlot x = l.length + 1 := by
    have hidx := findCurIdx_append (a := l) (b := r) maxProc 0
      (by rw [← hslots, Sched.slots, List.range_eq_range']) hl
    rw [Sched.startSlot, hidx, Nat.zero_add]
  have hrot : s.slots.rotate (s.startSlot x) = r ++ (l ++ [x]) := by
    have hassoc : s.slots = (l ++ [x]) ++ r := by rw [hslots]; simp
    have hlen : l.length + 1 = (l ++ [x]).length := by simp
    rw [hstart, hassoc, hlen, List.rotate_append_length_eq]
  have hqueue : a = l.filter (fun p => decide (Schedulable s p)) ∧
      b = r.filter (fun p => decide (Schedulable s p)) := by
    have hfilter : s.runQueue = l.filter (fun p => decide (Schedulable s p)) ++
        x :: r.filter (fun p => decide (Schedulable s p)) := by
      rw [Sched.runQueue, hslots, List.filter_append]
      congr 1
      exact List.filter_cons_of_pos hsched
    have hnd := runQueue_nodup hd
    rw [hsplit] at hfilter hnd
    have hxa : x ∉ a := fun h => (List.nodup_append.mp hnd).2.2 _ h _ List.mem_cons_self rfl
    have hxb : x ∉ b := (List.nodup_cons.mp (List.nodup_append.mp hnd).2.1).1
    obtain ⟨ha, -, hb⟩ := (List.append_cons_inj_of_notMem hxa hxb).mp hfilter
    exact ⟨ha, hb⟩
  have hsame : ∀ q : List Nat, x ∉ q →
      q.filter (s.wanted x) = q.filter (fun p => decide (Schedulable s p)) := by
    intro q hq
    refine List.filter_congr fun p hp => ?_
    have hne : p ≠ x := fun h => hq (h ▸ hp)
    simp [Sched.wanted, hne]
  have hself : [x].filter (s.wanted x) = [] := by simp [Sched.wanted]
  have hne : b ++ a ≠ [] := by
    intro hnil
    have hlen := congrArg List.length hsplit
    obtain ⟨rfl, rfl⟩ := List.append_eq_nil_iff.mp hnil
    rw [List.nil_append, List.length_singleton] at hlen
    omega
  have hfind : (r ++ (l ++ [x])).find? (s.wanted x) = (b ++ a).head? := by
    rw [← List.head?_filter, List.filter_append, List.filter_append, hsame r hr, hsame l hl, hself,
      List.append_nil, ← hqueue.1, ← hqueue.2]
  obtain ⟨y, ys, hys⟩ := List.exists_cons_of_ne_nil hne
  rw [pickNextProc_eq_find, hrot, hfind, hys]
  rfl

/-- Round-robin fairness. In a table whose non-NULL entries are distinct: from any
runnable process, with at least two of them, iterating the choice meets every runnable
process exactly once in as many steps as there are, and is then back; and from any
process the choice is NULL exactly when no other one is runnable, and otherwise the
first other runnable one in cyclic slot order. -/
theorem round_robin (hd : s.DistinctSlots) : s.runQueue.Nodup ∧
    (∀ cur ∈ s.runQueue, 2 ≤ s.runQueue.length →
      (∀ p, p ∈ s.runQueue ↔
        ∃! t, (1 ≤ t ∧ t ≤ s.runQueue.length) ∧ (pickNextProc s)^[t] cur = p) ∧
      (pickNextProc s)^[s.runQueue.length] cur = cur) ∧
    ∀ cur, cur ≠ 0 →
      (pickNextProc s cur = 0 ↔ ∀ p ∈ s.runQueue, p = cur) ∧
      (pickNextProc s cur ≠ 0 → ∃ d < maxProc, pickNextProc s cur = s.slotAfter cur d ∧
        s.wanted cur (s.slotAfter cur d) = true ∧
        ∀ e < d, s.wanted cur (s.slotAfter cur e) = false) := by
  refine ⟨runQueue_nodup hd, ?_, fun cur _ => pickNextProc_first s cur⟩
  · intro cur hcur hk
    obtain ⟨i, hi, rfl⟩ := List.getElem_of_mem hcur
    have hround := pickNextProc_goesRound hd hk
    exact ⟨fun p => hround.meets_once (runQueue_nodup hd) hi p, hround.back hi⟩

theorem twoProcs_distinct : twoProcs.DistinctSlots := by
  unfold Sched.DistinctSlots
  decide +kernel

/-- Two processes take turns. -/
theorem round_robin_two_procs : twoProcs.runQueue = [0xC0400010, 0xC0400110] ∧
    (pickNextProc twoProcs)^[2] 0xC0400010 = 0xC0400010 := by
  have hqueue : twoProcs.runQueue = [0xC0400010, 0xC0400110] := by decide +kernel
  have h := (round_robin twoProcs_distinct).2.1 0xC0400010 (by rw [hqueue]; simp) (by rw [hqueue]; simp)
  have hback := h.2
  rw [hqueue] at hback
  exact ⟨hqueue, hback⟩

end BrownieOS.Process
