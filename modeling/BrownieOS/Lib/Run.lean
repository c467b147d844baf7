import Mathlib.Data.List.Induction

/-!
# Runs of a labelled transition system

`Run step s as t`: from `s` the system can take steps labelled `as`, in order,
and be in `t`. A property kept by every step holds all along a run.
-/
namespace BrownieOS.Lib

/-- A finite run, extended at its end. -/
inductive Run {σ α : Type*} (step : σ → α → σ → Prop) : σ → List α → σ → Prop
  | nil (s : σ) : Run step s [] s
  | snoc {s t u : σ} {as : List α} {a : α} : Run step s as t → step t a u → Run step s (as ++ [a]) u

namespace Run

variable {σ α : Type*} {step : σ → α → σ → Prop} {s t u : σ} {as bs : List α} {a : α}

/-- A property of the labels so far and the state, kept by every step. -/
theorem invariant_trace {I : List α → σ → Prop}
    (hstep : ∀ as t a u, I as t → step t a u → I (as ++ [a]) u) (hrun : Run step s as t)
    (hs : I [] s) : I as t := by
  induction hrun with
  | nil => exact hs
  | snoc _ hlast ih => exact hstep _ _ _ _ ih hlast

/-- What every step keeps, every run keeps. -/
theorem invariant {I : σ → Prop} (hstep : ∀ s a t, I s → step s a t → I t)
    (hrun : Run step s as t) (hs : I s) : I t :=
  hrun.invariant_trace (I := fun _ t => I t) (fun _ t a u => hstep t a u) hs

/-- Runs of a system with fewer steps are runs of the larger one. -/
theorem mono {step' : σ → α → σ → Prop} (h : ∀ s a t, step s a t → step' s a t)
    (hrun : Run step s as t) : Run step' s as t := by
  induction hrun with
  | nil => exact .nil _
  | snoc _ hlast ih => exact .snoc ih (h _ _ _ hlast)

theorem single (h : step s a t) : Run step s [a] t := .snoc (.nil s) h

theorem append (h₁ : Run step s as t) (h₂ : Run step t bs u) : Run step s (as ++ bs) u := by
  induction h₂ with
  | nil => simpa using h₁
  | snoc _ hlast ih =>
    rw [← List.append_assoc]
    exact .snoc ih hlast

theorem cons (h : step s a t) (hrun : Run step t as u) : Run step s (a :: as) u :=
  (single h).append hrun

theorem nil_inv {ls : List α} (hrun : Run step s ls t) (hls : ls = []) : s = t := by
  cases hrun with
  | nil => rfl
  | snoc _ _ => exact absurd (congrArg List.length hls) (by simp)

theorem snoc_inv {ls : List α} (hrun : Run step s ls t) (hls : ls = as ++ [a]) :
    ∃ u, Run step s as u ∧ step u a t := by
  cases hrun with
  | nil => exact absurd (congrArg List.length hls) (by simp)
  | snoc hfirst hlast =>
    obtain ⟨rfl, h⟩ := List.append_inj' hls rfl
    obtain rfl := List.singleton_inj.1 h
    exact ⟨_, hfirst, hlast⟩

/-- A run goes through a state after each of its labels. -/
theorem split (hrun : Run step s (as ++ bs) t) : ∃ u, Run step s as u ∧ Run step u bs t := by
  induction bs using List.reverseRecOn generalizing t with
  | nil =>
    rw [List.append_nil] at hrun
    exact ⟨t, hrun, .nil t⟩
  | append_singleton bs b ih =>
    obtain ⟨u, hfirst, hlast⟩ := hrun.snoc_inv (List.append_assoc as bs [b]).symm
    obtain ⟨v, has, hbs⟩ := ih hfirst
    exact ⟨v, has, hbs.snoc hlast⟩

theorem cons_inv (hrun : Run step s (a :: as) t) : ∃ u, step s a u ∧ Run step u as t := by
  rw [← List.singleton_append] at hrun
  obtain ⟨u, hfirst, hrest⟩ := hrun.split
  obtain ⟨v, hnil, hstep⟩ := hfirst.snoc_inv (List.nil_append [a]).symm
  obtain rfl := hnil.nil_inv rfl
  exact ⟨u, hstep, hrest⟩

end Run

end BrownieOS.Lib
