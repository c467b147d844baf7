import BrownieOS.LibC.PrintfEmits
import BrownieOS.LibC.Strings
import Mathlib.Data.List.TakeWhile

/-!
# What a call of `printf` puts on the terminal

The characters that `vprintf` gives to `putchar`, whether it ends or is left. A string with a
byte 0xFF is printed up to that byte, and nothing behind it.
-/
namespace BrownieOS.LibC

open BrownieOS.Lib Word32

/-- What has been given to `putchar`. -/
def sentBy : Ended Tty → List Byte
  | .done t => t.sent
  | .left t => t.sent
  | .undefined => []
  | .unfinished => []

/-- `printf` with a literal as its format. -/
def printf (format : String) (parameters : List Arg) : List Byte :=
  sentBy (vprintf (literal format) parameters)

/-- The string that starts with these bytes and ends at the first NUL. -/
def CString.upto (bytes : List Byte) : CString where
  chars := bytes.takeWhile (· ≠ 0)
  noNul := fun h => by simpa using List.mem_takeWhile_imp h

/-- A text up to the first byte that `putchar` hands back as `EOF`. -/
def uptoEof (text : List Byte) : List Byte := text.takeWhile (· ≠ 0xFF) ++ [0xFF]

section Printed

variable {f : VPrintf} {text : List Byte} {str : CString}

theorem CString.upto_chars (h : 0 ∉ text) : (CString.upto text).chars = text := by
  rw [CString.upto, List.takeWhile_eq_self_iff]
  intro c hc
  exact decide_eq_true fun he => h (he ▸ hc)

theorem literal_holdsAt (text : String) :
    Mem.HoldsAt (literal text) 0 (text.toList.map ch ++ [0]) := by
  intro k hk
  unfold literal Mem.ofBytes
  rw [Nat.zero_add]
  by_cases hlt : k < (text.toList.map ch).length
  · rw [List.getElem_append_left hlt, List.getElem?_eq_getElem hlt, Option.getD_some]
  · rw [List.length_append, List.length_singleton] at hk
    rw [List.getElem_append_right (by omega), List.getElem?_eq_none (by omega)]
    simp

/-- The loop over a text with an `EOF` stops behind it. -/
theorem VPrintf.putLoop_upto (h : 0xFF ∈ text) : ∃ f', f.putLoop text = .leave f' ∧
    f'.out.sent = f.out.sent ++ uptoEof text := by
  induction text generalizing f with
  | nil => exact absurd h List.not_mem_nil
  | cons c text ih =>
    rw [VPrintf.putLoop]
    by_cases hc : c = 0xFF
    · rw [if_pos hc, uptoEof, List.takeWhile_cons_of_neg (by simp [hc]), hc]
      exact ⟨_, rfl, rfl⟩
    · obtain ⟨f', hleave, hsent⟩ := ih (f := f.put c) ((List.mem_cons.1 h).resolve_left (Ne.symm hc))
      refine ⟨f', by rw [if_neg hc, hleave], ?_⟩
      rw [hsent, uptoEof, uptoEof, List.takeWhile_cons_of_pos (by simpa using hc)]
      simp [VPrintf.put]

/-- `printf("%s\n", str)`. -/
theorem printf_line (hlen : str.chars.length < intMax) : printf "%s\n" [.string str] =
    if 0xFF ∈ str.chars then uptoEof str.chars else str.chars ++ [ch '\n'] := by
  have hm := literal_holdsAt "%s\n"
  unfold printf
  split
  · rename_i heof
    have happ : Mem.HoldsAt (literal "%s\n") 0 ((Directive.string str).format ++ [ch '\n', 0]) := hm
    have hformat := (Mem.holdsAt_append.1 happ).1
    have hpiece := readPiece_directive hformat []
    obtain ⟨f', hleave, hsent⟩ := VPrintf.putLoop_upto (f := ⟨2, [], 0, []⟩) heof
    have hturn : vprintfTurn (literal "%s\n") (started [.string str]) = .leave f' := by
      rw [vprintfTurn_of_readPiece (f := started [.string str]) hpiece]
      exact (if_neg (Nat.not_lt.2 (Nat.le_of_lt hlen))).trans hleave
    have hmore : vprintfMore (literal "%s\n") (started [.string str]) = true := by
      show decide (literal "%s\n" 0 ≠ 0) = true
      decide
    rw [vprintf_of_visits .here fun fuel => loop_of_leave hmore hturn]
    exact hsent
  · rename_i hplain
    have hlen' : (printedText [.string str, .literal (ch '\n') (by decide)]).length ≤ intMax := by
      simp only [printedText, List.flatMap_cons, List.flatMap_nil, List.append_nil, List.length_append]
      exact hlen
    have hdone := vprintf_of_passes (literal "%s\n") [.string str, .literal (ch '\n') (by decide)] [] hm
      hlen' (passes_iff.2 (by simpa using hplain))
    exact (congrArg sentBy hdone).trans rfl

end Printed

end BrownieOS.LibC
