import BrownieOS.LibC.Printf

/-!
# When the two formatters agree

What a format asks for is a list of pieces, each a character or a directive with its
argument. `vprintf` sends the texts of the pieces. `vsnprintf` stores the same text
piece by piece, as long as it knows the directive and reads the argument the same way.
-/
namespace BrownieOS.LibC

open BrownieOS.Lib Word32

inductive Piece where
  | char (c : Byte)
  | percent
  | string (str : CString)
  | dec (i : BitVec 32)
  | hex (i : BitVec 32)
  | int (i : BitVec 32)
  | uint (i : BitVec 32)
  | longDec (i : BitVec 64)
  | longUint (i : BitVec 64)
  | longHex (i : BitVec 64)

namespace Piece

/-- The characters `vprintf` sends for a piece. -/
def text : Piece → List Byte
  | char c => [c]
  | percent => [ch '%']
  | string str => str.chars
  | dec i => itoa i 10
  | hex i => utoa i 16
  | int i => utoa i 10
  | uint i => utoa i 10
  | longDec i => lltoa i 10
  | longUint i => ulltoa i 10
  | longHex i => ulltoa i 16

/-- `vsnprintf` has no `%u` and no `%l`, and its `%i` is signed. -/
def agrees : Piece → Bool
  | int i => !i.msb
  | uint _ | longDec _ | longUint _ | longHex _ => false
  | _ => true

end Piece

def readInt (parameters : List Arg) (piece : BitVec 32 → Piece) (format : Nat) :
    Option (Piece × Nat × List Arg) :=
  match parameters with
  | .int v :: parameters => some (piece v, format, parameters)
  | _ => none

def readLongLong (parameters : List Arg) (piece : BitVec 64 → Piece) (format : Nat) :
    Option (Piece × Nat × List Arg) :=
  match parameters with
  | .longLong v :: parameters => some (piece v, format, parameters)
  | _ => none

def readString (parameters : List Arg) (format : Nat) : Option (Piece × Nat × List Arg) :=
  match parameters with
  | .string str :: parameters => some (.string str, format, parameters)
  | _ => none

/-- The piece at `format`, and where the next one starts. -/
def readPiece (m : Mem) (format : Nat) (parameters : List Arg) :
    Option (Piece × Nat × List Arg) :=
  if m format = ch '%' then
    let c := m (format + 1)
    if c = ch 'l' then
      let c := m (format + 3)
      if c = ch 'u' ∨ c = ch 'i' then readLongLong parameters .longUint (format + 4)
      else if c = ch 'x' then readLongLong parameters .longHex (format + 4)
      else readLongLong parameters .longDec (format + 4)
    else if c = ch 'c' then readInt parameters (fun v => .char (v.setWidth 8)) (format + 2)
    else if c = ch 's' then readString parameters (format + 2)
    else if c = ch 'd' then readInt parameters .dec (format + 2)
    else if c = ch 'u' then readInt parameters .uint (format + 2)
    else if c = ch 'i' then readInt parameters .int (format + 2)
    else if c = ch 'x' then readInt parameters .hex (format + 2)
    else if c = 0 then none
    else some (.percent, format + 2, parameters)
  else some (.char (m format), format + 1, parameters)

/-- The pieces up to the terminator. -/
def piecesFrom (m : Mem) : Nat → Nat → List Arg → List Piece
  | 0, _, _ => []
  | fuel + 1, format, parameters =>
    if m format = 0 then []
    else
      match readPiece m format parameters with
      | none => []
      | some (q, format, parameters) => q :: piecesFrom m fuel format parameters

def pieces (m : Mem) (parameters : List Arg) : List Piece :=
  piecesFrom m (formatFuel parameters) 0 parameters

def textOf (qs : List Piece) : List Byte := qs.flatMap Piece.text

/-- Only dashes are printed. -/
def Dashes (qs : List Piece) : Prop := ∀ q ∈ qs, ∀ c ∈ q.text, c = ch '-'

abbrev intMin : BitVec 32 := 0x80000000

/-- The first disagreement is `%i` of `INT_MIN`, which `vsnprintf` prints with a dash after
the same ten digits, and dashes are all that follows. -/
def LostSign (qs : List Piece) : Prop :=
  ∃ pre post, qs = pre ++ .int intMin :: post ∧ (∀ q ∈ pre, q.agrees) ∧ Dashes post

/-- Every piece agrees, or the one dash too many falls off the end of the buffer. -/
def SameText (n : Nat) (qs : List Piece) : Prop :=
  (∀ q ∈ qs, q.agrees) ∨ LostSign qs ∧ n = (textOf qs).length + 1

/-- The bytes at `s` with a text stored at their start, and nothing else. -/
def stored (s : Mem) (text : List Byte) : Mem := fun i => (text[i]?).getD (s i)

def Buffer.of (s : Mem) (text : List Byte) : Buffer := ⟨text.length, stored s text⟩

/-! ## One turn of `vprintf` -/

section Parameters

variable {ω : Type} {f f' : Formatter ω}

theorem Formatter.vaInt_next {k : BitVec 32 → Formatter ω → Turn (Formatter ω)}
    (h : f.vaInt k = .next f') :
    ∃ v ps, f.parameters = .int v :: ps ∧ k v { f with parameters := ps } = .next f' := by
  unfold Formatter.vaInt at h
  split at h
  · rename_i v ps hp
    exact ⟨v, ps, hp, h⟩
  · cases h

theorem Formatter.vaLongLong_next {k : BitVec 64 → Formatter ω → Turn (Formatter ω)}
    (h : f.vaLongLong k = .next f') :
    ∃ v ps, f.parameters = .longLong v :: ps ∧ k v { f with parameters := ps } = .next f' := by
  unfold Formatter.vaLongLong at h
  split at h
  · rename_i v ps hp
    exact ⟨v, ps, hp, h⟩
  · cases h

theorem Formatter.vaString_next {k : CString → Formatter ω → Turn (Formatter ω)}
    (h : f.vaString k = .next f') :
    ∃ v ps, f.parameters = .string v :: ps ∧ k v { f with parameters := ps } = .next f' := by
  unfold Formatter.vaString at h
  split at h
  · rename_i v ps hp
    exact ⟨v, ps, hp, h⟩
  · cases h

theorem Formatter.vaInt_cons (k : BitVec 32 → Formatter ω → Turn (Formatter ω)) {v : BitVec 32}
    {ps : List Arg} (h : f.parameters = .int v :: ps) :
    f.vaInt k = k v { f with parameters := ps } := by
  unfold Formatter.vaInt
  rw [h]

theorem Formatter.vaString_cons (k : CString → Formatter ω → Turn (Formatter ω)) {str : CString}
    {ps : List Arg} (h : f.parameters = .string str :: ps) :
    f.vaString k = k str { f with parameters := ps } := by
  unfold Formatter.vaString
  rw [h]

end Parameters

namespace VPrintf

variable {f f' : VPrintf}

def puts (f : VPrintf) (str : List Byte) : VPrintf :=
  { f with out := ⟨f.out.written + str.length, f.out.sent ++ str⟩ }

theorem putChar_next {c : Byte} (h : f.putChar c = .next f') :
    [c].length ≤ f.remaining ∧ f' = f.puts [c] := by
  unfold putChar at h
  split at h
  · cases h
  · cases h
    rename_i hr
    exact ⟨by rw [List.length_singleton]; omega, rfl⟩

theorem putLoop_next {str : List Byte} (h : f.putLoop str = .next f') : f' = f.puts str := by
  induction str generalizing f with
  | nil =>
    cases h
    simp [puts]
  | cons c str ih =>
    rw [putLoop] at h
    split at h
    · cases h
    · rw [ih h]
      simp [puts, put, Nat.add_assoc, Nat.add_comm 1]

theorem putText_next {str : List Byte} (h : f.putText str = .next f') :
    str.length ≤ f.remaining ∧ f' = f.puts str := by
  unfold putText at h
  split at h
  · cases h
  · exact ⟨by omega, putLoop_next h⟩

end VPrintf

/-- The turn that took `f` to `f'` read the piece `q` and sent its text. -/
def VPrintf.Took (f f' : VPrintf) (q : Piece) : Prop :=
  q.text.length ≤ f.remaining ∧
    f'.out = ⟨f.out.written + q.text.length, f.out.sent ++ q.text⟩

section Turn

variable {m : Mem} {f f' : VPrintf}

theorem vprintfLong_next (h : vprintfLong m f.advance.advance = .next f') :
    ∃ q, (let c := m (f.format + 3)
      if c = ch 'u' ∨ c = ch 'i' then readLongLong f.parameters .longUint (f.format + 4)
      else if c = ch 'x' then readLongLong f.parameters .longHex (f.format + 4)
      else readLongLong f.parameters .longDec (f.format + 4)) =
        some (q, f'.format, f'.parameters) ∧ f.Took f' q := by
  unfold vprintfLong at h
  dsimp only [Formatter.advance] at h ⊢
  split at h
  · rename_i hc
    obtain ⟨v, ps, hp, h⟩ := Formatter.vaLongLong_next h
    obtain ⟨hr, rfl⟩ := VPrintf.putText_next h
    refine ⟨.longUint v, ?_, hr, rfl⟩
    rw [if_pos hc, show f.parameters = .longLong v :: ps from hp]
    rfl
  · rename_i hc
    rw [if_neg hc]
    split at h
    · rename_i hx
      obtain ⟨v, ps, hp, h⟩ := Formatter.vaLongLong_next h
      obtain ⟨hr, rfl⟩ := VPrintf.putText_next h
      refine ⟨.longHex v, ?_, hr, rfl⟩
      rw [if_pos hx, show f.parameters = .longLong v :: ps from hp]
      rfl
    · rename_i hx
      obtain ⟨v, ps, hp, h⟩ := Formatter.vaLongLong_next h
      obtain ⟨hr, rfl⟩ := VPrintf.putText_next h
      refine ⟨.longDec v, ?_, hr, rfl⟩
      rw [if_neg hx, show f.parameters = .longLong v :: ps from hp]
      rfl

theorem vaInt_putText_next {conv : BitVec 32 → List Byte} {piece : BitVec 32 → Piece}
    (hconv : ∀ v, (piece v).text = conv v)
    (h : f.advance.advance.vaInt (fun i f => VPrintf.putText f (conv i)) = .next f') :
    ∃ q, readInt f.parameters piece (f.format + 2) = some (q, f'.format, f'.parameters) ∧
      f.Took f' q := by
  obtain ⟨v, ps, hp, h⟩ := Formatter.vaInt_next h
  obtain ⟨hr, rfl⟩ := VPrintf.putText_next h
  refine ⟨piece v, ?_, by rw [hconv]; exact hr, by rw [hconv]; rfl⟩
  rw [show f.parameters = .int v :: ps from hp]
  rfl

/-- What a turn of `vprintf` that goes on has done: it read one piece and sent its text. -/
theorem vprintfTurn_next (h : vprintfTurn m f = .next f') :
    ∃ q, readPiece m f.format f.parameters = some (q, f'.format, f'.parameters) ∧
      f.Took f' q := by
  unfold vprintfTurn at h
  unfold readPiece
  split at h
  · rename_i hp
    rw [if_pos hp]
    unfold vprintfDirective at h
    rw [show m f.advance.format = m (f.format + 1) from rfl] at h
    generalize m (f.format + 1) = c at h ⊢
    dsimp only at h ⊢
    split at h
    · rename_i hc
      rw [if_pos hc]
      exact vprintfLong_next h
    rename_i hl
    rw [if_neg hl]
    split at h
    · rename_i hc
      obtain ⟨v, ps, hp, h⟩ := Formatter.vaInt_next h
      obtain ⟨hr, rfl⟩ := VPrintf.putChar_next h
      refine ⟨.char (v.setWidth 8), ?_, hr, rfl⟩
      rw [if_pos hc, show f.parameters = .int v :: ps from hp]
      rfl
    rename_i hc
    rw [if_neg hc]
    split at h
    · rename_i hs
      obtain ⟨str, ps, hp, h⟩ := Formatter.vaString_next h
      obtain ⟨hr, rfl⟩ := VPrintf.putText_next h
      refine ⟨.string str, ?_, hr, rfl⟩
      rw [if_pos hs, show f.parameters = .string str :: ps from hp]
      rfl
    rename_i hs
    rw [if_neg hs]
    split at h
    · rename_i hd
      rw [if_pos hd]
      exact vaInt_putText_next (fun _ => rfl) h
    rename_i hd
    rw [if_neg hd]
    split at h
    · rename_i hui
      rcases hui with hu | hi
      · rw [if_pos hu]
        exact vaInt_putText_next (fun _ => rfl) h
      · rw [if_neg (by rw [hi]; decide), if_pos hi]
        exact vaInt_putText_next (fun _ => rfl) h
    rename_i hui
    rw [if_neg fun hu => hui (Or.inl hu), if_neg fun hi => hui (Or.inr hi)]
    split at h
    · rename_i hx
      rw [if_pos hx]
      exact vaInt_putText_next (fun _ => rfl) h
    rename_i hx
    rw [if_neg hx]
    split at h
    · cases h
    · rename_i h0
      obtain ⟨hr, rfl⟩ := VPrintf.putChar_next h
      exact ⟨.percent, by rw [if_neg h0]; rfl, hr, rfl⟩
  · rename_i hp
    obtain ⟨hr, rfl⟩ := VPrintf.putChar_next h
    exact ⟨.char (m f.format), by rw [if_neg hp]; rfl, hr, rfl⟩

end Turn

/-! ## One turn of `vsnprintf` -/

section Buffers

variable {s : Mem} {text text' : List Byte}

theorem update_stored (s : Mem) (text : List Byte) (c : Byte) :
    Function.update (stored s text) text.length c = stored s (text ++ [c]) := by
  funext i
  unfold stored
  rcases Nat.lt_trichotomy i text.length with h | h | h
  · rw [Function.update_of_ne (by omega), List.getElem?_append_left h]
  · subst h
    rw [Function.update_self, List.getElem?_concat_length]
    rfl
  · have : (text ++ [c]).length ≤ i := by rw [List.length_append, List.length_singleton]; omega
    rw [Function.update_of_ne (by omega), List.getElem?_eq_none this,
      List.getElem?_eq_none (by omega)]

theorem Buffer.terminate_of (s : Mem) (text : List Byte) :
    (Buffer.of s text).terminate = ⟨text.length, stored s (text ++ [0])⟩ := by
  unfold Buffer.terminate Buffer.of
  rw [update_stored]

theorem stored_injective (h : text.length = text'.length) (hs : stored s text = stored s text') :
    text = text' := by
  refine List.ext_getElem h fun i hi hi' => ?_
  have := congrFun hs i
  simpa [stored, List.getElem?_eq_getElem hi, List.getElem?_eq_getElem hi'] using this

end Buffers

namespace VSnprintf

variable {s : Mem} {out : List Byte} {n : Nat} {f f' : VSnprintf}

/-- The state with `out` in the buffer. -/
def holding (s : Mem) (format : Nat) (parameters : List Arg) (out : List Byte) : VSnprintf :=
  ⟨format, parameters, Buffer.of s out⟩

theorem put_of (hf : f.out = Buffer.of s out) (c : Byte) :
    f.put c = holding s f.format f.parameters (out ++ [c]) := by
  unfold put holding
  rw [hf]
  simp only [Buffer.of, update_stored, List.length_append, List.length_singleton]

theorem putChar_next {c : Byte} (h : f.putChar c = .next f') (hf : f.out = Buffer.of s out) :
    f' = holding s f.format f.parameters (out ++ [c]) ∧ 1 ≤ f.remaining := by
  unfold putChar at h
  split at h
  · cases h
  · cases h
    exact ⟨put_of hf c, by omega⟩

theorem putChar_of {c : Byte} (hf : f.out = Buffer.of s out) (h : 1 ≤ f.remaining) :
    f.putChar c = .next (holding s f.format f.parameters (out ++ [c])) := by
  unfold putChar
  rw [if_neg (by omega), put_of hf]

/-- The loop stores some of the text, whatever `n` is. -/
theorem putLoop_some (n : Nat) (str : List Byte) (hf : f.out = Buffer.of s out) :
    ∃ t, t.length ≤ str.length ∧
      f.putLoop n str = holding s f.format f.parameters (out ++ t) := by
  induction str generalizing f out with
  | nil =>
    refine ⟨[], le_rfl, ?_⟩
    rw [putLoop, List.append_nil, holding, ← hf]
  | cons c str ih =>
    rw [putLoop]
    split
    · rw [put_of hf]
      obtain ⟨t, ht, he⟩ := ih (f := holding s f.format f.parameters (out ++ [c])) rfl
      exact ⟨c :: t, Nat.succ_le_succ ht, by rw [he, List.append_assoc]; rfl⟩
    · exact ⟨[], Nat.zero_le _, by rw [List.append_nil, holding, ← hf]⟩

/-- With a size up to `INT_MAX` it stores what fits. -/
theorem putLoop_of (hn : 0 < n) (hn' : n ≤ intMax) (str : List Byte) (hf : f.out = Buffer.of s out) :
    f.putLoop n str = holding s f.format f.parameters (out ++ str.take (n - 1 - out.length)) := by
  induction str generalizing f out with
  | nil => rw [putLoop, List.take_nil, List.append_nil, holding, ← hf]
  | cons c str ih =>
    have hw : f.out.written = out.length := by rw [hf]; rfl
    have hi : (BitVec.ofNat 32 n).toInt = n := by
      have hm : (BitVec.ofNat 32 n).toNat = n := by
        simp only [BitVec.toNat_ofNat, intMax] at *
        omega
      simp only [intMax] at hn'
      rw [BitVec.toInt_eq_toNat_of_lt (by omega), hm]
    rw [putLoop, hw, hi]
    split
    · rename_i h
      rw [put_of hf, ih (f := holding s f.format f.parameters (out ++ [c])) rfl]
      have : n - 1 - out.length = (n - 1 - (out ++ [c]).length) + 1 := by
        rw [List.length_append, List.length_singleton]
        omega
      rw [this, List.take_succ_cons, List.append_assoc]
      rfl
    · rename_i h
      rw [show n - 1 - out.length = 0 by omega, List.take_zero, List.append_nil, holding, ← hf]

theorem putText_next {str : List Byte} (h : f.putText n str = .next f')
    (hf : f.out = Buffer.of s out) :
    ∃ t, t.length ≤ f.remaining ∧ f' = holding s f.format f.parameters (out ++ t) := by
  unfold putText at h
  split at h
  · cases h
  · cases h
    obtain ⟨t, ht, he⟩ := putLoop_some n str hf
    exact ⟨t, by omega, he⟩

theorem putText_of {str : List Byte} (hn : 0 < n) (hn' : n ≤ intMax)
    (hf : f.out = Buffer.of s out) (h : str.length ≤ f.remaining) :
    f.putText n str =
      .next (holding s f.format f.parameters (out ++ str.take (n - 1 - out.length))) := by
  unfold putText
  rw [if_neg (by omega), putLoop_of hn hn' str hf]

end VSnprintf

section Turn

variable {m s : Mem} {n : Nat} {out : List Byte} {f f' : VSnprintf} {q : Piece} {p : Nat}
  {ps : List Arg}

open VSnprintf

/-- A turn that goes on appends to the buffer, and writes a character or takes a parameter. -/
def VSnprintf.Grew (s : Mem) (out : List Byte) (f f' : VSnprintf) : Prop :=
  ∃ t, f'.out = Buffer.of s (out ++ t) ∧ t.length ≤ f.remaining ∧
    f'.parameters.length < f.parameters.length + t.length

theorem vaInt_putText_grew {conv : BitVec 32 → List Byte} (hf : f.out = Buffer.of s out)
    (h : f.advance.advance.vaInt (fun i f => VSnprintf.putText n f (conv i)) = .next f') :
    f.Grew s out f' := by
  obtain ⟨v, ps, hp, h⟩ := Formatter.vaInt_next h
  obtain ⟨t, ht, rfl⟩ := putText_next h hf
  refine ⟨t, rfl, ht, ?_⟩
  rw [show f.parameters = .int v :: ps from hp, List.length_cons]
  exact Nat.lt_add_right _ (Nat.lt_succ_self _)

theorem vsnprintfTurn_grew (hf : f.out = Buffer.of s out) (h : vsnprintfTurn n m f = .next f') :
    f.Grew s out f' := by
  unfold vsnprintfTurn at h
  split at h
  · unfold vsnprintfDirective at h
    dsimp only at h
    split at h
    · obtain ⟨v, ps, hp, h⟩ := Formatter.vaInt_next h
      obtain ⟨rfl, hr⟩ := putChar_next h hf
      refine ⟨[v.setWidth 8], rfl, hr, ?_⟩
      rw [show f.parameters = .int v :: ps from hp, List.length_cons]
      exact Nat.lt_add_right _ (Nat.lt_succ_self _)
    split at h
    · obtain ⟨str, ps, hp, h⟩ := Formatter.vaString_next h
      obtain ⟨t, ht, rfl⟩ := putText_next h hf
      refine ⟨t, rfl, ht, ?_⟩
      rw [show f.parameters = .string str :: ps from hp, List.length_cons]
      exact Nat.lt_add_right _ (Nat.lt_succ_self _)
    split at h
    · exact vaInt_putText_grew hf h
    split at h
    · exact vaInt_putText_grew hf h
    split at h
    · cases h
    · obtain ⟨rfl, hr⟩ := putChar_next h hf
      exact ⟨[ch '%'], rfl, hr, Nat.lt_succ_self _⟩
  · obtain ⟨rfl, hr⟩ := putChar_next h hf
    exact ⟨[m f.format], rfl, hr, Nat.lt_succ_self _⟩

/-- What `vsnprintf` stores for a piece. -/
def Piece.storedText : Piece → List Byte
  | .int i => itoa i 10
  | .uint _ | .longDec _ | .longUint _ | .longHex _ => [ch '%']
  | q => q.text

/-- `%u` and `%l` are unknown to `vsnprintf`, which takes no parameter for them. -/
def Piece.known : Piece → Bool
  | .uint _ | .longDec _ | .longUint _ | .longHex _ => false
  | _ => true

theorem Piece.storedText_of_agrees (hq : q.agrees) : q.storedText = q.text := by
  cases q with
  | int i =>
    have hi : i.msb = false := by simpa [Piece.agrees] using hq
    simp only [Piece.storedText, Piece.text, itoa, utoa, untoa_eq, BitVec.toInt_eq_toNat_of_msb hi]
  | uint | longDec | longUint | longHex => cases hq
  | _ => rfl

theorem readInt_eq_some {piece : BitVec 32 → Piece} {parameters : List Arg} {format : Nat}
    (h : readInt parameters piece format = some (q, p, ps)) :
    ∃ v, parameters = .int v :: ps ∧ q = piece v ∧ p = format := by
  unfold readInt at h
  split at h
  · rename_i v _
    cases h
    exact ⟨v, rfl, rfl, rfl⟩
  · cases h

theorem readLongLong_eq_some {piece : BitVec 64 → Piece} {parameters : List Arg} {format : Nat}
    (h : readLongLong parameters piece format = some (q, p, ps)) : ∃ v, q = piece v := by
  unfold readLongLong at h
  split at h
  · rename_i v _
    cases h
    exact ⟨v, rfl⟩
  · cases h

theorem readString_eq_some {parameters : List Arg} {format : Nat}
    (h : readString parameters format = some (q, p, ps)) :
    ∃ str, parameters = .string str :: ps ∧ q = .string str ∧ p = format := by
  unfold readString at h
  split at h
  · rename_i str _
    cases h
    exact ⟨str, rfl, rfl, rfl⟩
  · cases h

theorem take_singleton_of_lt {a b : Nat} (c : Byte) (h : a < b) : [c].take (b - a) = [c] :=
  List.take_of_length_le (by rw [List.length_singleton]; omega)

theorem vaInt_putText_of {conv : BitVec 32 → List Byte} {piece : BitVec 32 → Piece}
    (hconv : ∀ v, (piece v).storedText = conv v) (hn : 0 < n) (hn' : n ≤ intMax)
    (hf : f.out = Buffer.of s out)
    (h : readInt f.parameters piece (f.format + 2) = some (q, p, ps))
    (hrem : q.storedText.length ≤ f.remaining) :
    f.advance.advance.vaInt (fun i f => VSnprintf.putText n f (conv i)) =
      .next (holding s p ps (out ++ q.storedText.take (n - 1 - out.length))) := by
  obtain ⟨v, hps, rfl, rfl⟩ := readInt_eq_some h
  rw [hconv] at hrem ⊢
  rw [Formatter.vaInt_cons (f := f.advance.advance) _ hps]
  exact putText_of (f := ⟨f.format + 2, ps, f.out⟩) hn hn' hf hrem

/-- The turn of `vsnprintf` on a directive it knows. -/
theorem vsnprintfTurn_of_known (hn : 0 < n) (hn' : n ≤ intMax) (hf : f.out = Buffer.of s out)
    (hroom : out.length < n - 1)
    (h : readPiece m f.format f.parameters = some (q, p, ps)) (hq : q.known)
    (hrem : q.storedText.length ≤ f.remaining) :
    vsnprintfTurn n m f = .next (holding s p ps (out ++ q.storedText.take (n - 1 - out.length))) := by
  unfold vsnprintfTurn
  unfold readPiece at h
  split at h
  · rename_i hp
    rw [if_pos hp]
    unfold vsnprintfDirective
    rw [show m f.advance.format = m (f.format + 1) from rfl]
    generalize m (f.format + 1) = c at h ⊢
    dsimp only at h ⊢
    split at h
    · exfalso
      split_ifs at h <;>
      · obtain ⟨v, rfl⟩ := readLongLong_eq_some h
        cases hq
    split at h
    · rename_i hc
      obtain ⟨v, hps, rfl, rfl⟩ := readInt_eq_some h
      rw [if_pos hc, Formatter.vaInt_cons (f := f.advance.advance) _ hps]
      refine (putChar_of (f := ⟨f.format + 2, ps, f.out⟩) hf hrem).trans ?_
      exact congrArg (fun t => Turn.next (holding s _ ps (out ++ t)))
        (take_singleton_of_lt _ hroom).symm
    rename_i hc
    rw [if_neg hc]
    split at h
    · rename_i hs
      obtain ⟨str, hps, rfl, rfl⟩ := readString_eq_some h
      rw [if_pos hs, Formatter.vaString_cons (f := f.advance.advance) _ hps]
      exact putText_of (f := ⟨f.format + 2, ps, f.out⟩) hn hn' hf hrem
    rename_i hs
    rw [if_neg hs]
    split at h
    · rename_i hd
      rw [if_pos (Or.inl hd)]
      exact vaInt_putText_of (fun _ => rfl) hn hn' hf h hrem
    rename_i hd
    split at h
    · obtain ⟨v, -, rfl, -⟩ := readInt_eq_some h
      cases hq
    split at h
    · rename_i hi
      rw [if_pos (Or.inr hi)]
      exact vaInt_putText_of (fun _ => rfl) hn hn' hf h hrem
    rename_i hi
    rw [if_neg (not_or.2 ⟨hd, hi⟩)]
    split at h
    · rename_i hx
      rw [if_pos hx]
      exact vaInt_putText_of (fun _ => rfl) hn hn' hf h hrem
    rename_i hx
    rw [if_neg hx]
    split at h
    · cases h
    · rename_i h0
      cases h
      rw [if_neg h0]
      refine (putChar_of (f := f.advance.advance) hf hrem).trans ?_
      exact congrArg (fun t => Turn.next (holding s _ _ (out ++ t)))
        (take_singleton_of_lt _ hroom).symm
  · rename_i hp
    cases h
    rw [if_neg hp]
    refine (putChar_of (f := f.advance) hf hrem).trans ?_
    exact congrArg (fun t => Turn.next (holding s _ _ (out ++ t)))
      (take_singleton_of_lt _ hroom).symm

/-- The turn on one it does not know. -/
theorem vsnprintfTurn_of_unknown (hf : f.out = Buffer.of s out)
    (h : readPiece m f.format f.parameters = some (q, p, ps)) (hq : q.known = false)
    (hrem : 1 ≤ f.remaining) :
    ∃ p' ps', vsnprintfTurn n m f = .next (holding s p' ps' (out ++ [ch '%'])) := by
  unfold vsnprintfTurn
  unfold readPiece at h
  split at h
  · rename_i hp
    rw [if_pos hp]
    have default : ∀ c, c = ch 'l' ∨ c = ch 'u' → m f.advance.format = c →
        vsnprintfDirective n m f.advance = VSnprintf.putChar f.advance.advance (ch '%') := by
      rintro _ (rfl | rfl) hc <;>
      · unfold vsnprintfDirective
        rw [hc]
        rfl
    refine ⟨f.format + 2, f.parameters, ?_⟩
    rw [default (m (f.format + 1)) ?_ rfl]
    · exact putChar_of hf hrem
    dsimp only at h
    split at h
    · rename_i hc
      exact Or.inl hc
    split at h
    · obtain ⟨v, -, rfl, -⟩ := readInt_eq_some h
      cases hq
    split at h
    · obtain ⟨str, -, rfl, -⟩ := readString_eq_some h
      cases hq
    split at h
    · obtain ⟨v, -, rfl, -⟩ := readInt_eq_some h
      cases hq
    split at h
    · rename_i hu
      exact Or.inr hu
    split at h
    · obtain ⟨v, -, rfl, -⟩ := readInt_eq_some h
      cases hq
    split at h
    · obtain ⟨v, -, rfl, -⟩ := readInt_eq_some h
      cases hq
    split at h
    · cases h
    · cases h
      cases hq
  · cases h
    cases hq

end Turn

end BrownieOS.LibC
