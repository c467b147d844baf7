import BrownieOS.Lib.Run
import Mathlib.Data.List.Chain

/-!
# Time slices

A clock ticks between the steps of the owners of a machine, and after every `slice` ticks the
machine has another owner. If no two ticks come without a step between them, every turn that has
passed gave its owner a step for every tick.
-/
namespace BrownieOS.Lib

variable {α β : Type*}

/-- Between any two ticks there is a step. -/
def Lively (tick : α → Bool) (as : List α) : Prop :=
  as.IsChain fun a b => tick a = true → tick b = false

/-- Every step is one of the owner at that time; `start` ticks came before the trace. -/
def InTurns (tick : α → Bool) (mine : β → α → Bool) (owner : Nat → β) (slice start : Nat) (as : List α) :
    Prop :=
  ∀ bs a cs, as = bs ++ a :: cs → tick a = false →
    mine (owner ((start + bs.countP tick) / slice)) a = true

/-- The steps counted so far: a whole turn for each turn that has passed, and in the present one a
step for each tick, with one more if a step came last. -/
structure SlicesUsed (tick : α → Bool) (mine : β → α → Bool) (owner : Nat → β) (slice start : Nat)
    (as : List α) : Prop where
  passed : ∀ k, start / slice < k → k < (start + as.countP tick) / slice →
    slice ≤ as.countP (mine (owner k))
  present : start / slice < (start + as.countP tick) / slice →
    (start + as.countP tick) % slice ≤ as.countP (mine (owner ((start + as.countP tick) / slice)))
  last : start / slice < (start + as.countP tick) / slice → ∀ bs a, as = bs ++ [a] → tick a = false →
    (start + as.countP tick) % slice < as.countP (mine (owner ((start + as.countP tick) / slice)))

variable {tick : α → Bool} {mine : β → α → Bool} {owner : Nat → β} {slice start : Nat}
  {as bs : List α} {a : α}

theorem Lively.after {b : α} (h : Lively tick (as ++ [b] ++ [a])) (hb : tick b = true) : tick a = false :=
  (List.isChain_append.1 h).2.2 b (by simp) a rfl hb

/-- A step may be taken at any time, and then a tick may come. -/
theorem Lively.step_tick {b : α} (h : Lively tick as) (ha : tick a = false) :
    Lively tick (as ++ [a, b]) := by
  refine List.isChain_append.2 ⟨h, ?_, fun _ _ c hc _ => ?_⟩
  · simp [ha]
  · obtain rfl := Option.some.inj hc
    exact ha

theorem InTurns.append_left (h : InTurns tick mine owner slice start (as ++ bs)) :
    InTurns tick mine owner slice start as := by
  intro ds a cs heq
  exact h ds a (cs ++ bs) (by rw [heq, List.append_assoc, List.cons_append])

theorem countP_snoc_of_true {p : α → Bool} (h : p a = true) (as : List α) :
    (as ++ [a]).countP p = as.countP p + 1 := by
  rw [List.countP_append, List.countP_singleton, if_pos h]

theorem countP_snoc_of_false {p : α → Bool} (h : p a = false) (as : List α) :
    (as ++ [a]).countP p = as.countP p := by
  rw [List.countP_append, List.countP_singleton, h, if_neg Bool.false_ne_true, Nat.add_zero]

theorem countP_le_append (p : α → Bool) (as bs : List α) : as.countP p ≤ (as ++ bs).countP p := by
  rw [List.countP_append]
  exact Nat.le_add_right _ _

/-- One more tick stays within the turn or fills it. -/
theorem succ_div_mod (hslice : 0 < slice) (m : Nat) :
    (m + 1) / slice = m / slice ∧ (m + 1) % slice = m % slice + 1 ∨
      m % slice + 1 = slice ∧ (m + 1) / slice = m / slice + 1 ∧ (m + 1) % slice = 0 := by
  have hm := Nat.mod_add_div m slice
  have hlt := Nat.mod_lt m hslice
  by_cases hfull : m % slice + 1 = slice
  · refine Or.inr ⟨hfull, (Nat.div_mod_unique hslice).2 ⟨?_, hslice⟩⟩
    rw [Nat.mul_add, Nat.mul_one]
    omega
  · exact Or.inl ((Nat.div_mod_unique hslice).2 ⟨by omega, by omega⟩)

namespace SlicesUsed

theorem nil : SlicesUsed tick mine owner slice start ([] : List α) := by
  constructor
  · intro k hk hk'
    rw [List.countP_nil, Nat.add_zero] at hk'
    omega
  · intro h
    rw [List.countP_nil, Nat.add_zero] at h
    omega
  · intro h
    rw [List.countP_nil, Nat.add_zero] at h
    omega

/-- A step of the owner. -/
theorem step (h : SlicesUsed tick mine owner slice start as) (ha : tick a = false)
    (hmine : mine (owner ((start + as.countP tick) / slice)) a = true) :
    SlicesUsed tick mine owner slice start (as ++ [a]) := by
  have hticks := countP_snoc_of_false ha as
  constructor
  · intro k hk hk'
    rw [hticks] at hk'
    exact Nat.le_trans (h.passed k hk hk') (countP_le_append _ _ _)
  · intro hstarted
    rw [hticks] at hstarted ⊢
    exact Nat.le_trans (h.present hstarted) (countP_le_append _ _ _)
  · intro hstarted _ _ _ _
    rw [hticks] at hstarted ⊢
    rw [countP_snoc_of_true hmine]
    exact Nat.lt_succ_of_le (h.present hstarted)

/-- A tick, which comes right after a step. -/
theorem clock (h : SlicesUsed tick mine owner slice start as) (hslice : 0 < slice) (ha : tick a = true)
    (hafter : ∀ bs b, as = bs ++ [b] → tick b = false) :
    SlicesUsed tick mine owner slice start (as ++ [a]) := by
  have hticks : start + (as ++ [a]).countP tick = start + as.countP tick + 1 := by
    rw [countP_snoc_of_true ha, Nat.add_assoc]
  -- the present turn has had a step for this tick as well
  have hused : start / slice < (start + as.countP tick) / slice →
      (start + as.countP tick) % slice + 1 ≤
        as.countP (mine (owner ((start + as.countP tick) / slice))) := by
    intro hstarted
    rcases List.eq_nil_or_concat as with rfl | ⟨bs, b, hbs⟩
    · exact absurd hstarted (Nat.lt_irrefl _)
    · rw [List.concat_eq_append] at hbs
      exact h.last hstarted bs b hbs (hafter bs b hbs)
  have hnotlast : ∀ bs b, as ++ [a] = bs ++ [b] → tick b = true := by
    intro bs b heq
    obtain rfl := List.singleton_inj.1 (List.append_inj_right' heq rfl)
    exact ha
  rcases succ_div_mod hslice (start + as.countP tick) with ⟨hdiv, hmod⟩ | ⟨hfull, hdiv, hmod⟩
  · constructor
    · intro k hk hk'
      rw [hticks, hdiv] at hk'
      exact Nat.le_trans (h.passed k hk hk') (countP_le_append _ _ _)
    · intro hstarted
      rw [hticks, hdiv] at hstarted
      rw [hticks, hdiv, hmod]
      exact Nat.le_trans (hused hstarted) (countP_le_append _ _ _)
    · intro _ bs b heq hb
      rw [hnotlast bs b heq] at hb
      cases hb
  · constructor
    · intro k hk hk'
      rw [hticks, hdiv] at hk'
      refine Nat.le_trans ?_ (countP_le_append _ _ _)
      by_cases hpassed : k < (start + as.countP tick) / slice
      · exact h.passed k hk hpassed
      · obtain rfl : k = (start + as.countP tick) / slice := by omega
        have hturn := hused hk
        omega
    · intro _
      rw [hticks, hmod]
      exact Nat.zero_le _
    · intro _ bs b heq hb
      rw [hnotlast bs b heq] at hb
      cases hb

end SlicesUsed

/-- In a lively trace of turns. -/
theorem InTurns.slicesUsed (h : InTurns tick mine owner slice start as) (hslice : 0 < slice)
    (hlively : Lively tick as) : SlicesUsed tick mine owner slice start as := by
  induction as using List.reverseRecOn with
  | nil => exact .nil
  | append_singleton as a ih =>
    have hbefore := ih h.append_left (List.isChain_append.1 hlively).1
    cases ha : tick a with
    | false => exact hbefore.step ha (h as a [] rfl ha)
    | true =>
      refine hbefore.clock hslice ha fun bs b heq => ?_
      rw [← Bool.not_eq_true]
      intro hb
      rw [heq] at hlively
      have hnext := hlively.after hb
      rw [ha] at hnext
      cases hnext

/-- Every turn that has passed gave its owner a step for each of its ticks. -/
theorem InTurns.used (h : InTurns tick mine owner slice start as) (hslice : 0 < slice)
    (hlively : Lively tick as) {k : Nat} (hk : start / slice < k)
    (hk' : k < (start + as.countP tick) / slice) : slice ≤ as.countP (mine (owner k)) :=
  (h.slicesUsed hslice hlively).passed k hk hk'

end BrownieOS.Lib
