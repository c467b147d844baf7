import Mathlib.Data.List.Basic
import Mathlib.Logic.Function.Basic

/-!
# Tables written through a wrapping counter

Values are stored one after the other into `c` cells, at a counter that wraps. The last `c`
of them are there; cells the counter has not reached are blank.
-/
namespace BrownieOS.Lib

/-- `cells` after all of `xs` were stored. -/
structure RingHolds {α : Type} (c : Nat) (blank : Nat → α) (xs : List α) (cells : Nat → α) : Prop where
  stored : ∀ i (h : i < xs.length), xs.length ≤ i + c → cells (i % c) = xs[i]
  blank : ∀ j < c, xs.length ≤ j → cells j = blank j

namespace RingHolds

variable {α : Type} {c : Nat} {blank cells : Nat → α} {xs : List α}

theorem start : RingHolds c blank [] blank where
  stored := fun _ h _ => absurd h (Nat.not_lt_zero _)
  blank := fun _ _ _ => rfl

/-- Two counts less than `c` apart name different cells. -/
theorem mod_ne {i n : Nat} (h : i < n) (hc : n < i + c) : i % c ≠ n % c := by
  intro he
  have hdvd : c ∣ n - i := Nat.dvd_of_mod_eq_zero (Nat.sub_mod_eq_zero_of_mod_eq he.symm)
  have hle := Nat.le_of_dvd (by omega) hdvd
  omega

theorem store (h : RingHolds c blank xs cells) (x : α) :
    RingHolds c blank (xs ++ [x]) (Function.update cells (xs.length % c) x) := by
  constructor
  · intro i hi hlive
    rw [List.length_append, List.length_singleton] at hi hlive
    by_cases hlast : i = xs.length
    · subst hlast
      rw [Function.update_self, List.getElem_concat_length rfl]
    · have hlt : i < xs.length := by omega
      rw [Function.update_of_ne (mod_ne hlt (by omega)), List.getElem_append_left hlt]
      exact h.stored i hlt (by omega)
  · intro j hj hfar
    rw [List.length_append, List.length_singleton] at hfar
    rw [Function.update_of_ne]
    · exact h.blank j hj (by omega)
    · rw [Nat.mod_eq_of_lt (by omega)]
      omega

/-- As long as they fit, the values are in the first cells. -/
theorem of_fits (h : RingHolds c blank xs cells) (hfit : xs.length ≤ c) {j : Nat}
    (hj : j < xs.length) : cells j = xs[j] := by
  have hcell := h.stored j hj (by omega)
  rwa [Nat.mod_eq_of_lt (by omega)] at hcell

/-- Every cell holds one of the values or is blank. -/
theorem mem_or_blank (h : RingHolds c blank xs cells) {j : Nat} (hj : j < c) :
    cells j ∈ xs ∨ xs.length ≤ j ∧ cells j = blank j := by
  by_cases hlt : j < xs.length
  · -- the last value that was stored in this cell
    have hsplit := Nat.div_add_mod (xs.length - 1 - j) c
    have hmod := Nat.mod_lt (xs.length - 1 - j) (show 0 < c by omega)
    have hcell := h.stored (j + c * ((xs.length - 1 - j) / c)) (by omega) (by omega)
    rw [Nat.add_mul_mod_self_left, Nat.mod_eq_of_lt hj] at hcell
    rw [hcell]
    exact Or.inl (List.getElem_mem _)
  · exact Or.inr ⟨by omega, h.blank j hj (by omega)⟩

/-- The cells below the counter hold what was stored since it last wrapped. -/
theorem since_wrap (h : RingHolds c blank xs cells) (hc : 0 < c) :
    (List.range (xs.length % c)).map cells = xs.drop (c * (xs.length / c)) := by
  have hsplit := Nat.div_add_mod xs.length c
  have hmod := Nat.mod_lt xs.length hc
  apply List.ext_getElem
  · rw [List.length_map, List.length_range, List.length_drop]
    omega
  · intro j h₁ h₂
    rw [List.length_map, List.length_range] at h₁
    have hcell := h.stored (c * (xs.length / c) + j) (by omega) (by omega)
    rw [Nat.mul_add_mod, Nat.mod_eq_of_lt (by omega)] at hcell
    rw [List.getElem_map, List.getElem_range, List.getElem_drop, hcell]

end RingHolds

end BrownieOS.Lib
