import Mathlib.Data.Nat.ModEq
import Mathlib.Data.List.Nodup
import Mathlib.Logic.Function.Iterate

/-!
# Going round a list

A function that sends each element of a list to the next one, and the last to the
first, goes round the list: its iterates from any element pass every element once
in as many steps as the list is long.
-/
namespace BrownieOS.Lib

variable {α : Type*}

/-- `f` sends each element of `l` to its cyclic successor. -/
def GoesRound (f : α → α) (l : List α) : Prop :=
  ∀ (i : Nat) (_ : i < l.length) (_ : (i + 1) % l.length < l.length), f l[i] = l[(i + 1) % l.length]

namespace GoesRound

variable {f : α → α} {l : List α} {i t t' : Nat}

theorem iterate (hf : GoesRound f l) (h : i < l.length) (t : Nat)
    (_ : (i + t) % l.length < l.length) : f^[t] l[i] = l[(i + t) % l.length] := by
  induction t with
  | zero =>
    have hi : (i + 0) % l.length = i := Nat.mod_eq_of_lt h
    simp only [Function.iterate_zero, id_eq, hi]
  | succ t ih =>
    have hstep : ((i + t) % l.length + 1) % l.length = (i + (t + 1)) % l.length := by
      rw [Nat.mod_add_mod, Nat.add_assoc]
    have hlt := Nat.mod_lt ((i + t) % l.length + 1) (show 0 < l.length by omega)
    rw [Function.iterate_succ_apply', ih (Nat.mod_lt _ (by omega)), hf _ (Nat.mod_lt _ (by omega)) hlt]
    simp only [hstep]

/-- After a whole round the iteration is back. -/
theorem back (hf : GoesRound f l) (h : i < l.length) : f^[l.length] l[i] = l[i] := by
  have hi : (i + l.length) % l.length = i := by
    rw [Nat.add_mod_right, Nat.mod_eq_of_lt h]
  rw [hf.iterate h _ (Nat.mod_lt _ (by omega))]
  simp only [hi]

/-- Two steps of one round that land on one index are the same step. -/
theorem step_unique {n : Nat} (ht : 1 ≤ t) (htn : t ≤ n) (ht' : 1 ≤ t') (htn' : t' ≤ n)
    (h : (i + t) % n = (i + t') % n) : t = t' := by
  have hmod : t ≡ t' [MOD n] := Nat.ModEq.add_left_cancel' i h
  have hpred : t - 1 ≡ t' - 1 [MOD n] := by
    refine Nat.ModEq.add_right_cancel' 1 ?_
    rwa [Nat.sub_add_cancel ht, Nat.sub_add_cancel ht']
  have := hpred.eq_of_lt_of_lt (by omega) (by omega)
  omega

/-- Within one round every element is met exactly once. -/
theorem meets_once (hf : GoesRound f l) (hl : l.Nodup) (h : i < l.length) (x : α) :
    x ∈ l ↔ ∃! t, (1 ≤ t ∧ t ≤ l.length) ∧ f^[t] l[i] = x := by
  constructor
  · intro hx
    obtain ⟨j, hj, rfl⟩ := List.getElem_of_mem hx
    have hpos : 0 < l.length := by omega
    have hreach : (i + ((j + l.length - i - 1) % l.length + 1)) % l.length = j := by
      have hsum : i + ((j + l.length - i - 1) + 1) = j + l.length := by omega
      calc (i + ((j + l.length - i - 1) % l.length + 1)) % l.length
          = ((j + l.length - i - 1) % l.length + (i + 1)) % l.length := by
            congr 1
            omega
        _ = (i + ((j + l.length - i - 1) + 1)) % l.length := by
            rw [Nat.mod_add_mod]
            congr 1
            omega
        _ = j := by rw [hsum, Nat.add_mod_right, Nat.mod_eq_of_lt hj]
    refine ⟨(j + l.length - i - 1) % l.length + 1, ⟨⟨by omega, ?_⟩, ?_⟩, ?_⟩
    · exact Nat.mod_lt _ hpos
    · rw [hf.iterate h _ (Nat.mod_lt _ hpos)]
      simp only [hreach]
    · rintro t ⟨⟨ht, htn⟩, heq⟩
      rw [hf.iterate h t (Nat.mod_lt _ hpos)] at heq
      have hidx := (hl.getElem_inj_iff).mp heq
      exact step_unique ht htn (by omega) (Nat.mod_lt _ hpos) (hidx.trans hreach.symm)
  · rintro ⟨t, ⟨-, rfl⟩, -⟩
    rw [hf.iterate h t (Nat.mod_lt _ (by omega))]
    exact List.getElem_mem _

end GoesRound

/-- It is enough to know the successor at each split of the list. -/
theorem goesRound_of_split {f : α → α} {l : List α}
    (h : ∀ a x b, l = a ++ x :: b → ((b ++ a) ++ [x]).head? = some (f x)) : GoesRound f l := by
  intro i hi hlt
  have hsplit : l = l.take i ++ l[i] :: l.drop (i + 1) := by
    rw [List.getElem_cons_drop, List.take_append_drop]
  have hhead := h _ _ _ hsplit
  have hget : (l.drop (i + 1) ++ l.take i ++ [l[i]])[0]? = l[(i + 1) % l.length]? := by
    by_cases hlast : i + 1 = l.length
    · rw [hlast, Nat.mod_self, List.drop_length, List.nil_append]
      by_cases h0 : i = 0
      · subst h0
        simp
      · rw [List.getElem?_append_left (by rw [List.length_take]; omega), List.getElem?_take_of_lt (by omega)]
    · rw [Nat.mod_eq_of_lt (by omega), List.append_assoc,
        List.getElem?_append_left (by rw [List.length_drop]; omega), List.getElem?_drop]
  rw [List.head?_eq_getElem?, hget, List.getElem?_eq_getElem hlt] at hhead
  exact (Option.some.inj hhead).symm

end BrownieOS.Lib
