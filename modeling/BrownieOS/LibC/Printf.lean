import BrownieOS.LibC.Itoa
import BrownieOS.Lib.Loop
import BrownieOS.Lib.Word32

/-!
# `vprintf` and `vsnprintf`

Two interpreters of the same format language, written apart. A format string is memory
from address 0 on, and so is the buffer; a parameter read at another type than it was
passed at is undefined.
-/
namespace BrownieOS.LibC

open BrownieOS.Lib Word32

abbrev intMax : Nat := 2147483647

/-- The characters of a C string, up to its terminator. -/
structure CString where
  chars : List Byte
  noNul : 0 ∉ chars

inductive Arg where
  | int (v : BitVec 32)
  | longLong (v : BitVec 64)
  | string (str : CString)

/-- The locals of a formatter: `format`, `parameters`, and where the characters go. -/
structure Formatter (ω : Type) where
  format : Nat
  parameters : List Arg
  out : ω

namespace Formatter

variable {ω : Type}

/-- `format++`. -/
def advance (f : Formatter ω) : Formatter ω := { f with format := f.format + 1 }

/-- `va_arg` at the types the formatters name. -/
def vaInt (f : Formatter ω) (k : BitVec 32 → Formatter ω → Turn (Formatter ω)) :
    Turn (Formatter ω) :=
  match f.parameters with
  | .int v :: parameters => k v { f with parameters := parameters }
  | _ => .undefined

def vaLongLong (f : Formatter ω) (k : BitVec 64 → Formatter ω → Turn (Formatter ω)) :
    Turn (Formatter ω) :=
  match f.parameters with
  | .longLong v :: parameters => k v { f with parameters := parameters }
  | _ => .undefined

def vaString (f : Formatter ω) (k : CString → Formatter ω → Turn (Formatter ω)) :
    Turn (Formatter ω) :=
  match f.parameters with
  | .string str :: parameters => k str { f with parameters := parameters }
  | _ => .undefined

end Formatter

/-! ## vprintf -/

/-- `written`, and what `putchar` was given. -/
structure Tty where
  written : Nat
  sent : List Byte
  deriving DecidableEq

abbrev VPrintf := Formatter Tty

namespace VPrintf

def remaining (f : VPrintf) : Nat := intMax - f.out.written

/-- `putchar` and `written++`. -/
def put (f : VPrintf) (c : Byte) : VPrintf :=
  { f with out := ⟨f.out.written + 1, f.out.sent ++ [c]⟩ }

def putChar (f : VPrintf) (c : Byte) : Turn VPrintf :=
  if f.remaining = 0 then .leave f else .next (f.put c)

/-- The loop over a text. A character 0xFF comes back from `putchar` as `EOF`. -/
def putLoop (f : VPrintf) : List Byte → Turn VPrintf
  | [] => .next f
  | c :: str =>
    if c = 0xFF then .leave { f with out := { f.out with sent := f.out.sent ++ [c] } }
    else putLoop (f.put c) str

def putText (f : VPrintf) (str : List Byte) : Turn VPrintf :=
  if f.remaining < str.length then .leave f else f.putLoop str

end VPrintf

/-- `case 'l'`, from the character after the `l`, which is skipped whatever it is. -/
def vprintfLong (m : Mem) (f : VPrintf) : Turn VPrintf :=
  let f := f.advance
  let c := m f.format
  let f := f.advance
  if c = ch 'u' ∨ c = ch 'i' then f.vaLongLong fun i f => VPrintf.putText f (ulltoa i 10)
  else if c = ch 'x' then f.vaLongLong fun i f => VPrintf.putText f (ulltoa i 16)
  else f.vaLongLong fun i f => VPrintf.putText f (lltoa i 10)

/-- The `switch`, from the character after the `%`. -/
def vprintfDirective (m : Mem) (f : VPrintf) : Turn VPrintf :=
  let c := m f.format
  if c = ch 'l' then vprintfLong m f.advance
  else if c = ch 'c' then f.advance.vaInt fun v f => VPrintf.putChar f (v.setWidth 8)
  else if c = ch 's' then f.advance.vaString fun str f => VPrintf.putText f str.chars
  else if c = ch 'd' then f.advance.vaInt fun i f => VPrintf.putText f (itoa i 10)
  else if c = ch 'u' ∨ c = ch 'i' then f.advance.vaInt fun i f => VPrintf.putText f (utoa i 10)
  else if c = ch 'x' then f.advance.vaInt fun i f => VPrintf.putText f (utoa i 16)
  else if c = 0 then .leave f
  else VPrintf.putChar f.advance (ch '%')

def vprintfTurn (m : Mem) (f : VPrintf) : Turn VPrintf :=
  if m f.format = ch '%' then vprintfDirective m f.advance
  else VPrintf.putChar f.advance (m f.format)

def vprintfMore (m : Mem) (f : VPrintf) : Bool := m f.format ≠ 0

/-- Every turn writes a character or takes a parameter. -/
def formatFuel (parameters : List Arg) : Nat := intMax + parameters.length + 1

/-- `vprintf`: done is `return written`, left is `return -1`. -/
def vprintf (m : Mem) (parameters : List Arg) : Ended Tty :=
  (loop (vprintfMore m) (vprintfTurn m) (formatFuel parameters) ⟨0, parameters, 0, []⟩).map
    Formatter.out

/-! ## vsnprintf -/

/-- `written`, and the bytes at `s`. -/
structure Buffer where
  written : Nat
  s : Mem

abbrev VSnprintf := Formatter Buffer

namespace VSnprintf

def remaining (f : VSnprintf) : Nat := intMax - f.out.written

/-- `s[written] = c; written++`. -/
def put (f : VSnprintf) (c : Byte) : VSnprintf :=
  { f with out := ⟨f.out.written + 1, Function.update f.out.s f.out.written c⟩ }

def putChar (f : VSnprintf) (c : Byte) : Turn VSnprintf :=
  if f.remaining = 0 then .leave f else .next (f.put c)

/-- The loop over a text, with the signed test `written < (int) n - 1`. -/
def putLoop (n : Nat) (f : VSnprintf) : List Byte → VSnprintf
  | [] => f
  | c :: str =>
    if (f.out.written : Int) < (BitVec.ofNat 32 n).toInt - 1 then putLoop n (f.put c) str else f

def putText (n : Nat) (f : VSnprintf) (str : List Byte) : Turn VSnprintf :=
  if f.remaining < str.length then .leave f else .next (f.putLoop n str)

end VSnprintf

def vsnprintfDirective (n : Nat) (m : Mem) (f : VSnprintf) : Turn VSnprintf :=
  let c := m f.format
  if c = ch 'c' then f.advance.vaInt fun v f => VSnprintf.putChar f (v.setWidth 8)
  else if c = ch 's' then f.advance.vaString fun str f => VSnprintf.putText n f str.chars
  else if c = ch 'd' ∨ c = ch 'i' then
    f.advance.vaInt fun i f => VSnprintf.putText n f (itoa i 10)
  else if c = ch 'x' then f.advance.vaInt fun i f => VSnprintf.putText n f (utoa i 16)
  else if c = 0 then .leave f
  else VSnprintf.putChar f.advance (ch '%')

def vsnprintfTurn (n : Nat) (m : Mem) (f : VSnprintf) : Turn VSnprintf :=
  if m f.format = ch '%' then vsnprintfDirective n m f.advance
  else VSnprintf.putChar f.advance (m f.format)

def vsnprintfMore (n : Nat) (m : Mem) (f : VSnprintf) : Bool :=
  m f.format ≠ 0 ∧ f.out.written < wsub n 1

/-- `s[written] = '\0'`. -/
def Buffer.terminate (b : Buffer) : Buffer := { b with s := Function.update b.s b.written 0 }

/-- `vsnprintf`: done is `return written`, left is `return -1`, which leaves out the NUL. -/
def vsnprintf (s : Mem) (n : Nat) (m : Mem) (parameters : List Arg) : Ended Buffer :=
  match loop (vsnprintfMore n m) (vsnprintfTurn n m) (formatFuel parameters) ⟨0, parameters, 0, s⟩ with
  | .done f => .done f.out.terminate
  | .left f => .left f.out
  | .undefined => .undefined
  | .unfinished => .unfinished

/-- `vsprintf`. -/
def vsprintf (s : Mem) (m : Mem) (parameters : List Arg) : Ended Buffer :=
  vsnprintf s intMax m parameters

section Returns

variable {s m : Mem} {n : Nat} {parameters : List Arg} {b : Buffer}

theorem vsnprintf_eq_done : vsnprintf s n m parameters = .done b ↔
    ∃ f, loop (vsnprintfMore n m) (vsnprintfTurn n m) (formatFuel parameters) ⟨0, parameters, 0, s⟩ =
      .done f ∧ f.out.terminate = b := by
  unfold vsnprintf
  cases loop (vsnprintfMore n m) (vsnprintfTurn n m) (formatFuel parameters) ⟨0, parameters, 0, s⟩ <;>
    simp

theorem vsnprintf_eq_left : vsnprintf s n m parameters = .left b ↔
    ∃ f, loop (vsnprintfMore n m) (vsnprintfTurn n m) (formatFuel parameters) ⟨0, parameters, 0, s⟩ =
      .left f ∧ f.out = b := by
  unfold vsnprintf
  cases loop (vsnprintfMore n m) (vsnprintfTurn n m) (formatFuel parameters) ⟨0, parameters, 0, s⟩ <;>
    simp

end Returns

end BrownieOS.LibC
