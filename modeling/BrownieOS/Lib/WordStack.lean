import BrownieOS.Lib.ByteMemory
import BrownieOS.Lib.Word32
import Mathlib.Data.List.Induction

/-!
# A stack of words that grows down

`push` stores a word below the pointer. What has been pushed lies below the old pointer, the last
word lowest.
-/
namespace BrownieOS.Lib

open Word32

theorem Word32.wadd_wadd (a b c : Nat) : wadd (wadd a b) c = wadd a (b + c) := by
  simp only [wadd]
  omega

/-- Memory with a stack pointer. -/
structure WordStack where
  mem : Mem
  esp : Nat

namespace WordStack

def push (s : WordStack) (v : Nat) : WordStack := ⟨s.mem.set32 (wsub s.esp 4) v, wsub s.esp 4⟩

/-- `addl $n, %esp`. -/
def drop (s : WordStack) (n : Nat) : WordStack := { s with esp := wadd s.esp n }

/-- The words pushed one after the other. -/
def pushAll (s : WordStack) (vs : List Nat) : WordStack := vs.foldl push s

theorem push_mem (s : WordStack) (v : Nat) : (s.push v).mem = s.mem.set32 (wsub s.esp 4) v := by
  rw [push]

theorem push_esp (s : WordStack) (v : Nat) : (s.push v).esp = wsub s.esp 4 := by
  rw [push]

variable {s : WordStack} {vs ws : List Nat} {v i : Nat}

theorem pushAll_cons (s : WordStack) (v : Nat) (vs : List Nat) :
    s.pushAll (v :: vs) = (s.push v).pushAll vs := List.foldl_cons

theorem pushAll_append (s : WordStack) (vs ws : List Nat) :
    s.pushAll (vs ++ ws) = (s.pushAll vs).pushAll ws := List.foldl_append

theorem pushAll_snoc (s : WordStack) (vs : List Nat) (v : Nat) :
    s.pushAll (vs ++ [v]) = (s.pushAll vs).push v := pushAll_append s vs [v]

theorem pushAll_esp (h : s.esp < 4294967296) (hroom : 4 * vs.length ≤ s.esp) :
    (s.pushAll vs).esp = s.esp - 4 * vs.length := by
  induction vs using List.reverseRecOn with
  | nil => rfl
  | append_singleton vs v ih =>
    rw [List.length_append, List.length_singleton] at hroom ⊢
    rw [pushAll_snoc, push_esp, ih (by omega), wsub_of_le (by omega) (by omega)]
    omega

/-- Pushing writes between the new pointer and the old one only. -/
theorem pushAll_agree (h : s.esp < 4294967296) (hroom : 4 * vs.length ≤ s.esp) :
    Mem.AgreeOff s.mem (s.pushAll vs).mem (s.esp - 4 * vs.length) s.esp := by
  induction vs using List.reverseRecOn with
  | nil => exact .refl _ _ _
  | append_singleton vs v ih =>
    rw [List.length_append, List.length_singleton] at hroom ⊢
    have hesp := pushAll_esp h (show 4 * vs.length ≤ s.esp by omega)
    have hbelow : wsub (s.pushAll vs).esp 4 = s.esp - 4 * (vs.length + 1) := by
      rw [hesp, wsub_of_le (by omega) (by omega)]
      omega
    rw [pushAll_snoc, push_mem, hbelow]
    exact ((ih (by omega)).mono (by omega) (Nat.le_refl _)).set32 v (Nat.le_refl _) (by omega)

/-- The words that have been pushed, each where it was put. -/
theorem pushAll_word (h : s.esp < 4294967296) (hroom : 4 * vs.length ≤ s.esp) (hv : ∀ v ∈ vs, v < 4294967296)
    (hi : i < vs.length) : (s.pushAll vs).mem.get32 (s.esp - 4 * (i + 1)) = vs[i] := by
  induction vs using List.reverseRecOn with
  | nil => exact absurd hi (Nat.not_lt_zero i)
  | append_singleton vs v ih =>
    rw [List.length_append, List.length_singleton] at hroom hi
    have hesp := pushAll_esp h (show 4 * vs.length ≤ s.esp by omega)
    have hbelow : wsub (s.pushAll vs).esp 4 = s.esp - 4 * (vs.length + 1) := by
      rw [hesp, wsub_of_le (by omega) (by omega)]
      omega
    rw [pushAll_snoc, push_mem, hbelow]
    rcases Nat.lt_or_ge i vs.length with hlt | hge
    · rw [Mem.get32_set32_of_apart _ _ (by omega), List.getElem_append_left hlt]
      exact ih (by omega) (fun w hw => hv w (List.mem_append_left _ hw)) hlt
    · obtain rfl : i = vs.length := by omega
      rw [Mem.get32_set32_self _ _ (hv v (by simp)), List.getElem_concat_length rfl]

end WordStack

end BrownieOS.Lib
