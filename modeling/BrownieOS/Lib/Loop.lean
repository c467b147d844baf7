import Mathlib.Data.Nat.Notation

/-!
# Loops with a body that may leave them

A `while` loop whose body goes on to the next turn, returns from the function, or runs
into undefined behaviour. Fuel bounds the turns; `loop_ends` says when it is enough.
-/
namespace BrownieOS.Lib

/-- What one turn of the body does. -/
inductive Turn (σ : Type) where
  | next (s : σ)
  | leave (s : σ)
  | undefined
  deriving DecidableEq

/-- How a loop ended, `unfinished` for want of fuel. -/
inductive Ended (σ : Type) where
  | done (s : σ)
  | left (s : σ)
  | undefined
  | unfinished
  deriving DecidableEq

def Ended.map {σ τ : Type} (g : σ → τ) : Ended σ → Ended τ
  | .done s => .done (g s)
  | .left s => .left (g s)
  | .undefined => .undefined
  | .unfinished => .unfinished

theorem Ended.map_eq_done {σ τ : Type} {g : σ → τ} {e : Ended σ} {t : τ} :
    e.map g = .done t ↔ ∃ s, e = .done s ∧ g s = t := by
  cases e <;> simp [Ended.map]

variable {σ : Type} {more : σ → Bool} {turn : σ → Turn σ} {fuel : Nat} {s s' : σ}

def loop (more : σ → Bool) (turn : σ → Turn σ) : Nat → σ → Ended σ
  | 0, _ => .unfinished
  | fuel + 1, s =>
    if more s then
      match turn s with
      | .next s' => loop more turn fuel s'
      | .leave s' => .left s'
      | .undefined => .undefined
    else .done s

theorem loop_of_not_more (h : more s = false) : loop more turn (fuel + 1) s = .done s := by
  rw [loop, h]
  rfl

theorem loop_of_next (h : more s = true) (ht : turn s = .next s') :
    loop more turn (fuel + 1) s = loop more turn fuel s' := by
  rw [loop, if_pos h, ht]

theorem loop_of_leave (h : more s = true) (ht : turn s = .leave s') :
    loop more turn (fuel + 1) s = .left s' := by
  rw [loop, if_pos h, ht]

/-- A loop that is done either was so at once or took a turn. -/
theorem loop_done (h : loop more turn (fuel + 1) s = .done s') :
    more s = false ∧ s' = s ∨
      more s = true ∧ ∃ s₁, turn s = .next s₁ ∧ loop more turn fuel s₁ = .done s' := by
  rw [loop] at h
  split at h
  · rename_i hm
    split at h
    · rename_i s₁ ht
      exact Or.inr ⟨hm, s₁, ht, h⟩
    · cases h
    · cases h
  · rename_i hm
    cases h
    exact Or.inl ⟨by simpa using hm, rfl⟩

/-- What every turn preserves holds when the loop is done. -/
theorem loop_invariant {P : σ → Prop}
    (step : ∀ s s₁, more s = true → turn s = .next s₁ → P s → P s₁)
    (h : loop more turn fuel s = .done s') (hs : P s) : P s' := by
  induction fuel generalizing s with
  | zero => cases h
  | succ fuel ih =>
    rcases loop_done h with ⟨-, rfl⟩ | ⟨hm, s₁, ht, h₁⟩
    · exact hs
    · exact ih h₁ (step s s₁ hm ht hs)

/-- With a measure that every turn lowers, fuel above it is never used up. -/
theorem loop_ends {μ : σ → Nat}
    (step : ∀ s s₁, more s = true → turn s = .next s₁ → μ s₁ < μ s)
    (h : μ s < fuel) : loop more turn fuel s ≠ .unfinished := by
  induction fuel generalizing s with
  | zero => exact absurd h (Nat.not_lt_zero _)
  | succ fuel ih =>
    rw [loop]
    split
    · rename_i hm
      split
      · rename_i s₁ ht
        exact ih (by have := step s s₁ hm ht; omega)
      · exact nofun
      · exact nofun
    · exact nofun

/-- `s'` is the state at the head of some turn of the loop from `s`. -/
inductive Visits (more : σ → Bool) (turn : σ → Turn σ) : σ → σ → Prop
  | here {s : σ} : Visits more turn s s
  | next {s s₁ s' : σ} : more s = true → turn s = .next s₁ → Visits more turn s₁ s' →
      Visits more turn s s'

theorem Visits.trans {s₁ : σ} (h : Visits more turn s s₁) (h' : Visits more turn s₁ s') :
    Visits more turn s s' := by
  induction h with
  | here => exact h'
  | next hm ht _ ih => exact .next hm ht (ih h')

/-- What every turn preserves holds of every state visited. -/
theorem Visits.invariant {P : σ → Prop}
    (step : ∀ s s₁, more s = true → turn s = .next s₁ → P s → P s₁) (h : Visits more turn s s')
    (hs : P s) : P s' := by
  induction h with
  | here => exact hs
  | next hm ht _ ih => exact ih (step _ _ hm ht hs)

/-- A loop is done in a state that it visits, and leaves from a turn in one. -/
theorem visits_of_done (h : loop more turn fuel s = .done s') :
    Visits more turn s s' ∧ more s' = false := by
  induction fuel generalizing s with
  | zero => cases h
  | succ fuel ih =>
    rcases loop_done h with ⟨hm, rfl⟩ | ⟨hm, s₁, ht, h₁⟩
    · exact ⟨.here, hm⟩
    · obtain ⟨hv, hend⟩ := ih h₁
      exact ⟨.next hm ht hv, hend⟩

theorem visits_of_left (h : loop more turn fuel s = .left s') :
    ∃ s₁, Visits more turn s s₁ ∧ more s₁ = true ∧ turn s₁ = .leave s' := by
  induction fuel generalizing s with
  | zero => cases h
  | succ fuel ih =>
    rw [loop] at h
    split at h
    · rename_i hm
      split at h
      · rename_i s₁ ht
        obtain ⟨s₂, hv, hend⟩ := ih h
        exact ⟨s₂, .next hm ht hv, hend⟩
      · rename_i ht
        cases h
        exact ⟨s, .here, hm, ht⟩
      · cases h
    · cases h

theorem visits_of_undefined (h : loop more turn fuel s = .undefined) :
    ∃ s₁, Visits more turn s s₁ ∧ more s₁ = true ∧ turn s₁ = .undefined := by
  induction fuel generalizing s with
  | zero => cases h
  | succ fuel ih =>
    rw [loop] at h
    split at h
    · rename_i hm
      split at h
      · rename_i s₁ ht
        obtain ⟨s₂, hv, hend⟩ := ih h
        exact ⟨s₂, .next hm ht hv, hend⟩
      · cases h
      · rename_i ht
        exact ⟨s, .here, hm, ht⟩
    · cases h

/-- With fuel enough a loop ends where its visits end. -/
theorem loop_of_visits {e : Ended σ} (hv : Visits more turn s s')
    (hend : ∀ fuel, loop more turn (fuel + 1) s' = e) (hfuel : loop more turn fuel s ≠ .unfinished) :
    loop more turn fuel s = e := by
  induction hv generalizing fuel with
  | here =>
    cases fuel with
    | zero => exact absurd rfl hfuel
    | succ fuel => exact hend fuel
  | next hm ht _ ih =>
    cases fuel with
    | zero => exact absurd rfl hfuel
    | succ fuel =>
      rw [loop_of_next hm ht] at hfuel ⊢
      exact ih hend hfuel

end BrownieOS.Lib
