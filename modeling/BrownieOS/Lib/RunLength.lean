import Mathlib.Data.Nat.Notation

/-!
# First fit by a run-length counter

One pass over the positions keeps the length of the free run that ends where it stands and
stops when the run is long enough. `FirstWindow` is the search it replaces: the lowest of
all windows of free positions.
-/
namespace BrownieOS.Lib

variable {free : Nat → Bool} {count lo hi p run n f : Nat}

/-- The `count` positions from `f` on are free. -/
def Window (free : Nat → Bool) (count f : Nat) : Prop :=
  ∀ g, f ≤ g → g < f + count → free g = true

/-- The lowest window inside `[lo, hi)`. -/
structure FirstWindow (free : Nat → Bool) (count lo hi f : Nat) : Prop where
  above : lo ≤ f
  below : f + count ≤ hi
  window : Window free count f
  lowest : ∀ g, lo ≤ g → g < f → ¬ Window free count g

/-- The lowest window is the first. -/
theorem FirstWindow.eq_lowest (h : FirstWindow free count lo hi f) (hle : lo ≤ p)
    (hw : Window free count p) (hno : ∀ g, lo ≤ g → g < p → ¬ Window free count g) : f = p := by
  have hge : ¬ p < f := fun hlt => h.lowest p hle hlt hw
  have hle' : ¬ f < p := fun hlt => hno f h.above hlt h.window
  omega

/-- A window with nothing free before it is the first. -/
theorem FirstWindow.eq_bottom (h : FirstWindow free count lo hi f) (hc : 1 ≤ count)
    (hused : ∀ g, lo ≤ g → g < p → free g = false) (hle : lo ≤ p) (hw : Window free count p) :
    f = p := by
  refine h.eq_lowest hle hw fun g hge hlt hwin => ?_
  have hfree := hwin g (Nat.le_refl g) (by omega)
  rw [hused g hge hlt] at hfree
  cases hfree

/-- The pass over `n` positions from `p` on, with a free run of length `run` before `p`:
the start of the window it stops at, or the length of the run it ends with. -/
def scanRuns (free : Nat → Bool) (count : Nat) : Nat → Nat → Nat → Nat ⊕ Nat
  | _, run, 0 => .inr run
  | p, run, n + 1 =>
    if free p then
      if run + 1 = count then .inl (p + 1 - count) else scanRuns free count (p + 1) (run + 1) n
    else scanRuns free count (p + 1) 0 n

/-- No window of `[lo, p)` has been missed, and the run before `p` is as long as can be. -/
structure RunBefore (free : Nat → Bool) (count lo p run : Nat) : Prop where
  inside : lo + run ≤ p
  window : Window free run (p - run)
  longest : lo + run = p ∨ free (p - run - 1) = false
  short : run < count
  missed : ∀ f, lo ≤ f → f + count ≤ p → ¬ Window free count f

namespace RunBefore

theorem start (free : Nat → Bool) (lo : Nat) (hc : 0 < count) : RunBefore free count lo lo 0 where
  inside := Nat.le_refl _
  window := fun g h₁ h₂ => by omega
  longest := Or.inl rfl
  short := hc
  missed := fun f h₁ h₂ => by omega

/-- The run and one more free position. -/
theorem extend (h : RunBefore free count lo p run) (hp : free p = true) :
    Window free (run + 1) (p - run) := by
  intro g h₁ h₂
  have hin := h.inside
  by_cases hg : g = p
  · rw [hg]
    exact hp
  · exact h.window g h₁ (by omega)

theorem next_free (h : RunBefore free count lo p run) (hp : free p = true) (hc : run + 1 ≠ count) :
    RunBefore free count lo (p + 1) (run + 1) := by
  have hin := h.inside
  have hshort := h.short
  refine ⟨by omega, ?_, ?_, by omega, fun f h₁ h₂ hw => ?_⟩
  · rw [show p + 1 - (run + 1) = p - run by omega]
    exact h.extend hp
  · rcases h.longest with he | hused
    · exact Or.inl (by omega)
    · rw [show p + 1 - (run + 1) - 1 = p - run - 1 by omega]
      exact Or.inr hused
  · by_cases hlast : f + count ≤ p
    · exact h.missed f h₁ hlast hw
    · -- such a window would contain the position before the run
      rcases h.longest with he | hused
      · omega
      · have hfree := hw (p - run - 1) (by omega) (by omega)
        rw [hused] at hfree
        cases hfree

theorem next_used (h : RunBefore free count lo p run) (hp : free p = false) :
    RunBefore free count lo (p + 1) 0 := by
  have hin := h.inside
  have hshort := h.short
  refine ⟨by omega, fun g h₁ h₂ => by omega, ?_, by omega, fun f h₁ h₂ hw => ?_⟩
  · exact Or.inr hp
  · by_cases hlast : f + count ≤ p
    · exact h.missed f h₁ hlast hw
    · have hfree := hw p (by omega) (by omega)
      rw [hp] at hfree
      cases hfree

/-- The run that has reached its length is the first window. -/
theorem first (h : RunBefore free count lo p run) (hp : free p = true) (hc : run + 1 = count)
    (hhi : p < hi) : FirstWindow free count lo hi (p + 1 - count) := by
  have hin := h.inside
  have hwindow := h.extend hp
  subst hc
  rw [show p + 1 - (run + 1) = p - run by omega]
  exact ⟨by omega, by omega, hwindow, fun g h₁ h₂ => h.missed g h₁ (by omega)⟩

end RunBefore

/-- How a pass over the zone `[lo, hi)` ends. -/
inductive PassEnd (free : Nat → Bool) (count lo hi : Nat) : Nat ⊕ Nat → Prop
  | found {f : Nat} : FirstWindow free count lo hi f → PassEnd free count lo hi (.inl f)
  | ended {run : Nat} : RunBefore free count lo hi run → PassEnd free count lo hi (.inr run)

/-- The pass stops at the first window, or there is none. -/
theorem scanRuns_end (h : RunBefore free count lo p run) (hn : p + n = hi) :
    PassEnd free count lo hi (scanRuns free count p run n) := by
  induction n generalizing p run with
  | zero =>
    obtain rfl : p = hi := hn
    exact .ended h
  | succ n ih =>
    unfold scanRuns
    by_cases hp : free p = true
    · rw [if_pos hp]
      by_cases hc : run + 1 = count
      · rw [if_pos hc]
        exact .found (h.first hp hc (by omega))
      · rw [if_neg hc]
        exact ih (h.next_free hp hc) (by omega)
    · rw [if_neg hp]
      exact ih (h.next_used (by simpa using hp)) (by omega)

end BrownieOS.Lib
