import Mathlib.Data.Nat.Notation

/-!
# Counted loops whose body may fail

Turn `i` of the loop runs the body with `i`, and the first turn that fails ends the run. A run
that goes through has an invariant at every turn, a run whose turns all go through does, and so
does one whose turns follow those of another.
-/
namespace BrownieOS.Lib

variable {σ τ : Type} {body : Nat → σ → Option σ} {i n : Nat}
  {s s' : σ} {t : τ}

/-- Turns `i` up to `i + n`. -/
def turns (body : Nat → σ → Option σ) : Nat → Nat → σ → Option σ
  | _, 0, s => some s
  | i, n + 1, s => (body i s).bind (turns body (i + 1) n)

theorem turns_succ_eq_some (h : turns body i (n + 1) s = some s') :
    ∃ s₁, body i s = some s₁ ∧ turns body (i + 1) n s₁ = some s' := Option.bind_eq_some_iff.1 h

/-- A loop goes through if every turn does, from where the turns before it lead. -/
theorem turns_returns (body : Nat → σ → Option σ) {Q : Nat → σ → Prop}
    (step : ∀ l s, i ≤ l → l < i + n → Q l s → ∃ s', body l s = some s' ∧ Q (l + 1) s')
    (hs : Q i s) : ∃ s', turns body i n s = some s' ∧ Q (i + n) s' := by
  induction n generalizing i s with
  | zero => exact ⟨s, rfl, hs⟩
  | succ n ih =>
    obtain ⟨s₁, h₁, hnext⟩ := step i s (Nat.le_refl i) (by omega) hs
    obtain ⟨s', h', hend⟩ := ih (fun l s hl hl' => step l s (by omega) (by omega)) hnext
    have hlast : i + 1 + n = i + (n + 1) := by omega
    rw [← hlast]
    refine ⟨s', ?_, hend⟩
    rw [turns, h₁]
    exact h'

/-- What holds before a turn if it holds after it, holds before the loop. -/
theorem turns_back {I ok : σ → Prop}
    (back : ∀ l s s', I s → body l s = some s' → I s' ∧ (ok s' → ok s))
    (h : turns body i n s = some s') (hI : I s) : I s' ∧ (ok s' → ok s) := by
  induction n generalizing i s with
  | zero =>
    cases h
    exact ⟨hI, id⟩
  | succ n ih =>
    obtain ⟨s₁, h₁, h₂⟩ := turns_succ_eq_some h
    obtain ⟨hI₁, hback⟩ := back i s s₁ hI h₁
    obtain ⟨hI', hback'⟩ := ih h₂ hI₁
    exact ⟨hI', fun hok => hback (hback' hok)⟩

/-- What every turn of a run that ends well keeps, holds at its end. -/
theorem turns_rule {I ok : σ → Prop} {Q : Nat → σ → Prop}
    (back : ∀ l s s', I s → body l s = some s' → I s' ∧ (ok s' → ok s))
    (h : turns body i n s = some s') (hI : I s) (hok : ok s')
    (step : ∀ l s s', i ≤ l → l < i + n → Q l s → body l s = some s' → ok s' → Q (l + 1) s')
    (hs : Q i s) : Q (i + n) s' := by
  induction n generalizing i s with
  | zero =>
    cases h
    exact hs
  | succ n ih =>
    obtain ⟨s₁, h₁, h₂⟩ := turns_succ_eq_some h
    obtain ⟨hI₁, -⟩ := back i s s₁ hI h₁
    have hok₁ := (turns_back back h₂ hI₁).2 hok
    have hnext := step i s s₁ (Nat.le_refl i) (by omega) hs h₁ hok₁
    have hlast : i + 1 + n = i + (n + 1) := by omega
    rw [← hlast]
    exact ih h₂ hI₁ (fun l s s' hl hl' => step l s s' (by omega) (by omega)) hnext

/-- A run whose turns can be followed is followed by a whole run. -/
theorem turns_follow (body' : Nat → τ → Option τ) {I ok : σ → Prop} {R : Nat → σ → τ → Prop}
    (back : ∀ l s s', I s → body l s = some s' → I s' ∧ (ok s' → ok s))
    (h : turns body i n s = some s') (hI : I s) (hok : ok s')
    (step : ∀ l s s' t, i ≤ l → l < i + n → R l s t → body l s = some s' → ok s' →
      ∃ t', body' l t = some t' ∧ R (l + 1) s' t')
    (hs : R i s t) : ∃ t', turns body' i n t = some t' ∧ R (i + n) s' t' := by
  induction n generalizing i s t with
  | zero =>
    cases h
    exact ⟨t, rfl, hs⟩
  | succ n ih =>
    obtain ⟨s₁, h₁, h₂⟩ := turns_succ_eq_some h
    obtain ⟨hI₁, -⟩ := back i s s₁ hI h₁
    have hok₁ := (turns_back back h₂ hI₁).2 hok
    obtain ⟨t₁, ht₁, hnext⟩ := step i s s₁ t (Nat.le_refl i) (by omega) hs h₁ hok₁
    have hlast : i + 1 + n = i + (n + 1) := by omega
    obtain ⟨t', ht', hend⟩ :=
      ih h₂ hI₁ (fun l s s' t hl hl' => step l s s' t (by omega) (by omega)) hnext
    rw [← hlast]
    refine ⟨t', ?_, hend⟩
    rw [turns, ht₁]
    exact ht'

end BrownieOS.Lib
