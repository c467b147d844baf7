import BrownieOS.Lib.ByteMemory
import BrownieOS.Lib.Word32

/-!
# `memmove`

Both loops overwrite a region that they may still have to read. Upwards the bytes already
written lie below the next one read, and downwards above it, so each byte read is an
original one.
-/
namespace BrownieOS.LibC

open BrownieOS.Lib Word32

/-- `dst[i] = src[i]`. -/
def moveByte (dst src i : Nat) (m : Mem) : Mem := Function.update m (wadd dst i) (m (wadd src i))

/-- The loop from `i` upwards, with `n` bytes left. -/
def moveUp (dst src : Nat) : Nat → Nat → Mem → Mem
  | _, 0, m => m
  | i, n + 1, m => moveUp dst src (i + 1) n (moveByte dst src i m)

/-- The loop downwards, with the bytes below `i` left. -/
def moveDown (dst src : Nat) : Nat → Mem → Mem
  | 0, m => m
  | i + 1, m => moveDown dst src i (moveByte dst src i m)

/-- `memmove`: the memory after the call and the pointer it returns. -/
def memmove (m : Mem) (dstptr srcptr size : Nat) : Mem × Nat :=
  if dstptr < srcptr then (moveUp dstptr srcptr 0 size m, dstptr)
  else (moveDown dstptr srcptr size m, dstptr)

/-- Bytes `lo` up to `hi` of the destination hold those of the source, all taken at once. -/
def movedTo (dst src lo hi : Nat) (m : Mem) : Mem := fun x =>
  if dst + lo ≤ x ∧ x < dst + hi then m (src + (x - dst)) else m x

section Move

variable {dst src size lo hi i n : Nat}

theorem movedTo_self (m : Mem) : movedTo dst src i i m = m := by
  funext x
  unfold movedTo
  rw [if_neg (by omega)]

theorem movedTo_off {x : Nat} (m : Mem) (h : x < dst + lo ∨ dst + hi ≤ x) :
    movedTo dst src lo hi m x = m x := by
  unfold movedTo
  rw [if_neg (by omega)]

/-- A byte whose source has not been overwritten joins the region. -/
theorem moveByte_movedTo (m : Mem) (hd : dst + i < 4294967296) (hs : src + i < 4294967296)
    (hread : src + i < dst + lo ∨ dst + hi ≤ src + i) (x : Nat) :
    moveByte dst src i (movedTo dst src lo hi m) x =
      if x = dst + i then m (src + i) else movedTo dst src lo hi m x := by
  unfold moveByte
  rw [wadd_of_lt hd, wadd_of_lt hs, movedTo_off m hread, Function.update_apply]

theorem moveByte_above (m : Mem) (hd : dst + i < 4294967296) (hs : src + i < 4294967296)
    (hlt : dst < src) :
    moveByte dst src i (movedTo dst src 0 i m) = movedTo dst src 0 (i + 1) m := by
  funext x
  rw [moveByte_movedTo m hd hs (by omega)]
  by_cases hx : x = dst + i
  · rw [if_pos hx, hx, movedTo, if_pos (by omega), Nat.add_sub_cancel_left]
  · rw [if_neg hx]
    simp only [movedTo]
    by_cases hin : dst + 0 ≤ x ∧ x < dst + i
    · rw [if_pos hin, if_pos (by omega)]
    · rw [if_neg hin, if_neg (by omega)]

theorem moveByte_below (m : Mem) (hd : dst + i < 4294967296) (hs : src + i < 4294967296)
    (hle : src ≤ dst) (hi : i < size) :
    moveByte dst src i (movedTo dst src (i + 1) size m) = movedTo dst src i size m := by
  funext x
  rw [moveByte_movedTo m hd hs (by omega)]
  by_cases hx : x = dst + i
  · rw [if_pos hx, hx, movedTo, if_pos (by omega), Nat.add_sub_cancel_left]
  · rw [if_neg hx]
    simp only [movedTo]
    by_cases hin : dst + (i + 1) ≤ x ∧ x < dst + size
    · rw [if_pos hin, if_pos (by omega)]
    · rw [if_neg hin, if_neg (by omega)]

/-- The upward loop extends the region at its end. -/
theorem moveUp_movedTo (m : Mem) (hd : dst + (i + n) ≤ 4294967296)
    (hs : src + (i + n) ≤ 4294967296) (hlt : dst < src) :
    moveUp dst src i n (movedTo dst src 0 i m) = movedTo dst src 0 (i + n) m := by
  induction n generalizing i with
  | zero => rfl
  | succ n ih =>
    rw [moveUp, moveByte_above m (by omega) (by omega) hlt, ih (by omega) (by omega),
      Nat.add_assoc, Nat.add_comm 1]

/-- The downward loop extends it at its start. -/
theorem moveDown_movedTo (m : Mem) (hd : dst + size ≤ 4294967296) (hs : src + size ≤ 4294967296)
    (hle : src ≤ dst) (hi : i ≤ size) :
    moveDown dst src i (movedTo dst src i size m) = movedTo dst src 0 size m := by
  induction i with
  | zero => rfl
  | succ i ih =>
    rw [moveDown, moveByte_below m (by omega) (by omega) hle hi]
    exact ih (by omega)

/-- However the regions overlap, `memmove` is the copy taken at once. -/
theorem memmove_eq (m : Mem) (hd : dst + size ≤ 4294967296) (hs : src + size ≤ 4294967296) :
    memmove m dst src size = (movedTo dst src 0 size m, dst) := by
  unfold memmove
  split
  · rename_i hlt
    have hup := moveUp_movedTo (i := 0) (n := size) m (by omega) (by omega) hlt
    rw [movedTo_self, Nat.zero_add] at hup
    rw [hup]
  · rename_i hge
    have hdown := moveDown_movedTo (i := size) m hd hs (by omega) (Nat.le_refl size)
    rw [movedTo_self] at hdown
    rw [hdown]

/-- The destination holds what the source held before the call, and nothing else changes. -/
theorem memmove_copies (m : Mem) (dst src size : Nat) (hd : dst + size ≤ 4294967296)
    (hs : src + size ≤ 4294967296) :
    (∀ i < size, (memmove m dst src size).1 (dst + i) = m (src + i)) ∧
      (∀ x, x < dst ∨ dst + size ≤ x → (memmove m dst src size).1 x = m x) ∧
        (memmove m dst src size).2 = dst := by
  rw [memmove_eq m hd hs]
  refine ⟨fun i hi => ?_, fun x hx => movedTo_off m (by omega), rfl⟩
  simp only [movedTo]
  rw [if_pos (by omega), Nat.add_sub_cancel_left]

theorem memmove_copies_overlap :
    (∀ i < 4, (memmove (fun x => BitVec.ofNat 8 x) 7 5 4).1 (7 + i) = BitVec.ofNat 8 (5 + i)) ∧
      (∀ x, x < 7 ∨ 7 + 4 ≤ x →
        (memmove (fun x => BitVec.ofNat 8 x) 7 5 4).1 x = BitVec.ofNat 8 x) ∧
        (memmove (fun x => BitVec.ofNat 8 x) 7 5 4).2 = 7 :=
  memmove_copies _ 7 5 4 (by decide) (by decide)

end Move

end BrownieOS.LibC
