import BrownieOS.Lib.Run
import Mathlib.Logic.Function.Iterate

/-!
# A component of an interleaved system

Of the steps of a system some are a component's own; the others leave it alone. Then the
component goes through a run as if it were by itself: where it is depends on the number of its
own steps only.
-/
namespace BrownieOS.Lib

variable {σ α β : Type*}

/-- `n` steps of a machine that may stop. -/
def stepsOf (next : β → Option β) (n : Nat) (b : β) : Option β := (fun o => o.bind next)^[n] (some b)

theorem stepsOf_zero (next : β → Option β) (b : β) : stepsOf next 0 b = some b := rfl

theorem stepsOf_succ (next : β → Option β) (n : Nat) (b : β) :
    stepsOf next (n + 1) b = (stepsOf next n b).bind next := Function.iterate_succ_apply' _ _ _

/-- `view` shows the component: the steps marked `mine` are those of `next`, all others leave
what it shows. -/
structure Component (step : σ → α → σ → Prop) (I : σ → Prop) (mine : α → Bool) (view : σ → β)
    (next : β → Option β) : Prop where
  inv : ∀ s a t, I s → step s a t → I t
  own : ∀ s a t, I s → step s a t → mine a = true → next (view s) = some (view t)
  other : ∀ s a t, I s → step s a t → mine a = false → view t = view s

namespace Component

variable {step : σ → α → σ → Prop} {I : σ → Prop} {mine : α → Bool} {view : σ → β}
  {next : β → Option β} {s t : σ} {as : List α}

theorem run (h : Component step I mine view next) (hs : I s) (hrun : Run step s as t) :
    I t ∧ stepsOf next (as.countP mine) (view s) = some (view t) := by
  refine hrun.invariant_trace (I := fun as t => I t ∧ stepsOf next (as.countP mine) (view s) = some (view t))
    ?_ ⟨hs, rfl⟩
  intro as t a u ⟨hi, hsteps⟩ hstep
  refine ⟨h.inv t a u hi hstep, ?_⟩
  rw [List.countP_append, List.countP_singleton]
  cases hmine : mine a with
  | true =>
    rw [if_pos rfl, stepsOf_succ, hsteps, Option.bind_some]
    exact h.own t a u hi hstep hmine
  | false =>
    rw [if_neg Bool.false_ne_true, Nat.add_zero, hsteps, h.other t a u hi hstep hmine]

end Component

end BrownieOS.Lib
