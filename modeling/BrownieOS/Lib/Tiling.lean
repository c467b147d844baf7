import Mathlib.Data.List.Nodup

/-!
# Tilings of an interval

A list of pieces tiles `[a, b)` when the first starts at `a`, each next starts
where the one before stops, and the last stops at `b`. Pieces are nonempty, so a
tiling is ordered and its pieces are apart.
-/
namespace BrownieOS.Lib

variable {α : Type*} {start stop : α → Nat}

def Tiles (start stop : α → Nat) : Nat → List α → Nat → Prop
  | a, [], b => a = b
  | a, x :: xs, b => start x = a ∧ start x < stop x ∧ Tiles start stop (stop x) xs b

namespace Tiles

variable {a b c : Nat} {x y : α} {xs ys : List α}

theorem append_iff : Tiles start stop a (xs ++ ys) b ↔
    ∃ c, Tiles start stop a xs c ∧ Tiles start stop c ys b := by
  induction xs generalizing a with
  | nil => simp [Tiles]
  | cons x xs ih =>
    simp only [List.cons_append, Tiles, ih]
    constructor
    · rintro ⟨h₁, h₂, c, h₃, h₄⟩
      exact ⟨c, ⟨h₁, h₂, h₃⟩, h₄⟩
    · rintro ⟨c, ⟨h₁, h₂, h₃⟩, h₄⟩
      exact ⟨h₁, h₂, c, h₃, h₄⟩

/-- The tiling around one piece. -/
theorem around (h : Tiles start stop a (xs ++ x :: ys) b) :
    Tiles start stop a xs (start x) ∧ start x < stop x ∧ Tiles start stop (stop x) ys b := by
  obtain ⟨c, hl, hx, hlt, hr⟩ := append_iff.mp h
  exact ⟨hx ▸ hl, hlt, hr⟩

theorem le (h : Tiles start stop a xs b) : a ≤ b := by
  induction xs generalizing a with
  | nil => exact Nat.le_of_eq h
  | cons x xs ih =>
    obtain ⟨h₁, h₂, h₃⟩ := h
    have := ih h₃
    omega

theorem mem_bounds (h : Tiles start stop a xs b) (hx : x ∈ xs) :
    a ≤ start x ∧ start x < stop x ∧ stop x ≤ b := by
  obtain ⟨l, r, rfl⟩ := List.append_of_mem hx
  obtain ⟨hl, hlt, hr⟩ := h.around
  exact ⟨hl.le, hlt, hr.le⟩

/-- Of two pieces the earlier stops before the later starts. -/
theorem pairwise (h : Tiles start stop a xs b) : xs.Pairwise (fun x y => stop x ≤ start y) := by
  induction xs generalizing a with
  | nil => exact List.Pairwise.nil
  | cons x xs ih => exact List.Pairwise.cons (fun y hy => (h.2.2.mem_bounds hy).1) (ih h.2.2)

/-- A piece other than the one at hand lies to its left or to its right. -/
theorem apart (h : Tiles start stop a (xs ++ x :: ys) b) (hy : y ∈ xs ∨ y ∈ ys) :
    stop y ≤ start x ∨ stop x ≤ start y := by
  obtain ⟨hl, -, hr⟩ := h.around
  rcases hy with hy | hy
  · exact Or.inl (hl.mem_bounds hy).2.2
  · exact Or.inr (hr.mem_bounds hy).1

/-- The first piece starts where the tiling does. -/
theorem start_head (h : Tiles start stop a (x :: xs) b) : start x = a := h.1

/-- The last piece stops where the tiling does. -/
theorem stop_last (h : Tiles start stop a (xs ++ [x]) b) : stop x = b := h.around.2.2

/-- Each piece starts where the one before it stops. -/
theorem adjacent (h : Tiles start stop a (xs ++ x :: y :: ys) b) : start y = stop x :=
  h.around.2.2.1

/-- No two pieces start at one place. -/
theorem nodup_start (h : Tiles start stop a xs b) : (xs.map start).Nodup := by
  refine List.pairwise_map.mpr (h.pairwise.imp_of_mem fun {x y} hx _ hxy => ?_)
  have := (h.mem_bounds hx).2.1
  omega

/-- Pieces are told apart by where they start. -/
theorem eq_of_start_eq (h : Tiles start stop a xs b) (hx : x ∈ xs) (hy : y ∈ xs)
    (he : start x = start y) : x = y :=
  List.inj_on_of_nodup_map h.nodup_start hx hy he

end Tiles

end BrownieOS.Lib
