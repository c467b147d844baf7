import BrownieOS.LibC.PrintfSame

/-!
# What `vprintf` passes to `putchar`

A turn of `vprintf` sends the text of one piece. A single character is passed on without a
look at the answer; a text stops at the first character that `putchar` hands back as `EOF`,
and that is the byte 0xFF of a string.
-/
namespace BrownieOS.LibC

open BrownieOS.Lib Word32

/-- What a turn does with a piece. -/
def Piece.send (q : Piece) (f : VPrintf) : Turn VPrintf :=
  match q with
  | .char c => VPrintf.putChar f c
  | .percent => VPrintf.putChar f (ch '%')
  | q => VPrintf.putText f q.text

/-- No character of the piece is taken for `EOF`. -/
def Piece.passes : Piece → Prop
  | .string str => 0xFF ∉ str.chars
  | _ => True

/-- A literal character, or a directive with the argument it takes. -/
inductive Directive where
  | literal (c : Byte) (plain : c ≠ 0 ∧ c ≠ ch '%')
  | percent
  | char (v : BitVec 32)
  | string (str : CString)
  | dec (i : BitVec 32)
  | uint (i : BitVec 32)
  | int (i : BitVec 32)
  | hex (i : BitVec 32)
  | longDec (i : BitVec 64)
  | longUint (i : BitVec 64)
  | longHex (i : BitVec 64)

namespace Directive

/-- How it is written in a format. -/
def format : Directive → List Byte
  | literal c _ => [c]
  | percent => [ch '%', ch '%']
  | char _ => [ch '%', ch 'c']
  | string _ => [ch '%', ch 's']
  | dec _ => [ch '%', ch 'd']
  | uint _ => [ch '%', ch 'u']
  | int _ => [ch '%', ch 'i']
  | hex _ => [ch '%', ch 'x']
  | longDec _ => [ch '%', ch 'l', ch 'l', ch 'd']
  | longUint _ => [ch '%', ch 'l', ch 'l', ch 'u']
  | longHex _ => [ch '%', ch 'l', ch 'l', ch 'x']

def parameters : Directive → List Arg
  | literal _ _ | percent => []
  | char v => [.int v]
  | string str => [.string str]
  | dec i | uint i | int i | hex i => [.int i]
  | longDec i | longUint i | longHex i => [.longLong i]

def piece : Directive → Piece
  | literal c _ => .char c
  | percent => .percent
  | char v => .char (v.setWidth 8)
  | string str => .string str
  | dec i => .dec i
  | uint i => .uint i
  | int i => .int i
  | hex i => .hex i
  | longDec i => .longDec i
  | longUint i => .longUint i
  | longHex i => .longHex i

/-- What is to be printed for it. -/
def text (d : Directive) : List Byte := d.piece.text

end Directive

/-- A format, the arguments that match it, and the whole text. -/
def formatOf (ds : List Directive) : List Byte := ds.flatMap Directive.format

def parametersOf (ds : List Directive) : List Arg := ds.flatMap Directive.parameters

def printedText (ds : List Directive) : List Byte := ds.flatMap Directive.text

section Turn

variable {m : Mem} {f f' : VPrintf} {q : Piece} {p : Nat} {ps : List Arg}

/-! ## One turn -/

theorem vaInt_of_readInt {k : BitVec 32 → VPrintf → Turn VPrintf} {piece : BitVec 32 → Piece}
    (hk : ∀ v f, k v f = (piece v).send f)
    (h : readInt f.parameters piece (f.format + 2) = some (q, p, ps)) :
    f.advance.advance.vaInt k = q.send ⟨p, ps, f.out⟩ := by
  obtain ⟨v, hps, rfl, rfl⟩ := readInt_eq_some h
  rw [Formatter.vaInt_cons (f := f.advance.advance) k hps]
  exact hk v _

theorem vaLongLong_of_readLongLong {k : BitVec 64 → VPrintf → Turn VPrintf}
    {piece : BitVec 64 → Piece} (hk : ∀ v f, k v f = (piece v).send f)
    (h : readLongLong f.parameters piece (f.format + 4) = some (q, p, ps)) :
    f.advance.advance.advance.advance.vaLongLong k = q.send ⟨p, ps, f.out⟩ := by
  unfold readLongLong at h
  unfold Formatter.vaLongLong
  split at h
  · rename_i v ps' hps
    cases h
    rw [show f.advance.advance.advance.advance.parameters = _ from hps]
    exact hk v _
  · cases h

/-- The turn on a piece sends it. -/
theorem vprintfTurn_of_readPiece (h : readPiece m f.format f.parameters = some (q, p, ps)) :
    vprintfTurn m f = q.send ⟨p, ps, f.out⟩ := by
  unfold vprintfTurn
  unfold readPiece at h
  split at h
  · rename_i hp
    rw [if_pos hp]
    unfold vprintfDirective
    rw [show m f.advance.format = m (f.format + 1) from rfl]
    generalize m (f.format + 1) = c at h ⊢
    dsimp only at h ⊢
    split at h
    · rename_i hl
      rw [if_pos hl]
      unfold vprintfLong
      dsimp only
      rw [show m f.advance.advance.advance.format = m (f.format + 3) from rfl]
      split at h
      · rename_i hui
        rw [if_pos hui]
        exact vaLongLong_of_readLongLong (fun _ _ => rfl) h
      rename_i hui
      rw [if_neg hui]
      split at h
      · rename_i hx
        rw [if_pos hx]
        exact vaLongLong_of_readLongLong (fun _ _ => rfl) h
      · rename_i hx
        rw [if_neg hx]
        exact vaLongLong_of_readLongLong (fun _ _ => rfl) h
    rename_i hl
    rw [if_neg hl]
    split at h
    · rename_i hc
      rw [if_pos hc]
      exact vaInt_of_readInt (fun _ _ => rfl) h
    rename_i hc
    rw [if_neg hc]
    split at h
    · rename_i hs
      obtain ⟨str, hps, rfl, rfl⟩ := readString_eq_some h
      rw [if_pos hs, Formatter.vaString_cons (f := f.advance.advance) _ hps]
      rfl
    rename_i hs
    rw [if_neg hs]
    split at h
    · rename_i hd
      rw [if_pos hd]
      exact vaInt_of_readInt (fun _ _ => rfl) h
    rename_i hd
    rw [if_neg hd]
    split at h
    · rename_i hu
      rw [if_pos (Or.inl hu)]
      exact vaInt_of_readInt (fun _ _ => rfl) h
    rename_i hu
    split at h
    · rename_i hi
      rw [if_pos (Or.inr hi)]
      exact vaInt_of_readInt (fun _ _ => rfl) h
    rename_i hi
    rw [if_neg (not_or.2 ⟨hu, hi⟩)]
    split at h
    · rename_i hx
      rw [if_pos hx]
      exact vaInt_of_readInt (fun _ _ => rfl) h
    rename_i hx
    rw [if_neg hx]
    split at h
    · cases h
    · rename_i h0
      rw [if_neg h0]
      cases h
      rfl
  · rename_i hp
    rw [if_neg hp]
    cases h
    rfl

/-! ## What a piece sends -/

theorem digitChar_ne_eof {r : Int} (h : r.natAbs < 36) : digitChar r ≠ 0xFF := by
  rcases Int.natAbs_eq r with hr | hr
  · rw [hr]
    exact (digitChar_plain h).2.2
  · rw [hr, digitChar_neg h]
    exact (digitChar_plain h).2.2

theorem digitLoop_ne_eof {base i : Int} (hb : 2 ≤ base) (hb' : base ≤ 36) {fuel : Nat} {c : Byte}
    (hc : c ∈ digitLoop base fuel i) : c ≠ 0xFF := by
  induction fuel generalizing i with
  | zero => exact absurd hc List.not_mem_nil
  | succ fuel ih =>
    have hr : (i.tmod base).natAbs < 36 := by
      rw [Int.natAbs_tmod]
      have := Nat.mod_lt i.natAbs (show 0 < base.natAbs by omega)
      omega
    simp only [digitLoop] at hc
    split at hc
    · rw [List.mem_singleton.1 hc]
      exact digitChar_ne_eof hr
    · rcases List.mem_cons.1 hc with rfl | hc
      · exact digitChar_ne_eof hr
      · exact ih hc

/-- No converted number has the character that reads as `EOF`. -/
theorem ntoa_ne_eof {i base : Int} {c : Byte} (hc : c ∈ ntoa i base) : c ≠ 0xFF := by
  unfold ntoa at hc
  split at hc
  · exact absurd hc List.not_mem_nil
  · rename_i hbase
    rw [List.mem_reverse, List.mem_append] at hc
    rcases hc with hc | hc
    · split at hc
      · rw [List.mem_singleton.1 hc]
        decide
      · exact absurd hc List.not_mem_nil
    · exact digitLoop_ne_eof (by omega) (by omega) hc

namespace VPrintf

variable {str : List Byte}

theorem putLoop_of_plain (h : 0xFF ∉ str) : putLoop f str = .next (puts f str) := by
  induction str generalizing f with
  | nil => simp [putLoop, puts]
  | cons c str ih =>
    rw [List.mem_cons, not_or] at h
    rw [putLoop, if_neg (Ne.symm h.1), ih h.2]
    simp [puts, put, Nat.add_assoc, Nat.add_comm 1]

theorem putLoop_of_eof (h : 0xFF ∈ str) : ∃ f', putLoop f str = .leave f' := by
  induction str generalizing f with
  | nil => exact absurd h List.not_mem_nil
  | cons c str ih =>
    rw [putLoop]
    split
    · exact ⟨_, rfl⟩
    · rename_i hc
      exact ih ((List.mem_cons.1 h).resolve_left (Ne.symm hc))

theorem putText_of_plain (hfit : str.length ≤ remaining f) (h : 0xFF ∉ str) :
    putText f str = .next (puts f str) := by
  unfold putText
  rw [if_neg (Nat.not_lt.2 hfit), putLoop_of_plain h]

theorem putText_of_long (hlong : remaining f < str.length) : putText f str = .leave f := if_pos hlong

theorem putChar_of_room {c : Byte} (hfit : [c].length ≤ remaining f) :
    putChar f c = .next (puts f [c]) := by
  unfold putChar
  rw [List.length_singleton] at hfit
  rw [if_neg (by omega)]
  rfl

end VPrintf

/-- A piece that fits and has no `EOF` in it is sent whole. -/
theorem Piece.send_of_passes (hfit : q.text.length ≤ VPrintf.remaining f) (hq : q.passes) :
    q.send f = .next (VPrintf.puts f q.text) := by
  have number : ∀ i base : Int, (ntoa i base).length ≤ VPrintf.remaining f →
      VPrintf.putText f (ntoa i base) = .next (VPrintf.puts f (ntoa i base)) :=
    fun i base hfit => VPrintf.putText_of_plain hfit fun hc => ntoa_ne_eof hc rfl
  have unsigned : ∀ (n : Nat) (base : Int), (untoa n base).length ≤ VPrintf.remaining f →
      VPrintf.putText f (untoa n base) = .next (VPrintf.puts f (untoa n base)) := by
    intro n base hfit
    rw [untoa_eq] at hfit ⊢
    exact number n base hfit
  cases q with
  | char c => exact VPrintf.putChar_of_room hfit
  | percent => exact VPrintf.putChar_of_room hfit
  | string str => exact VPrintf.putText_of_plain hfit hq
  | dec i => exact number i.toInt 10 hfit
  | longDec i => exact number i.toInt 10 hfit
  | int i | uint i | longUint i => exact unsigned i.toNat 10 hfit
  | hex i | longHex i => exact unsigned i.toNat 16 hfit

theorem Piece.send_of_long (hlong : VPrintf.remaining f < q.text.length) :
    ∃ f', q.send f = .leave f' := by
  have char : ∀ {c : Byte}, VPrintf.remaining f < [c].length →
      VPrintf.putChar f c = .leave f := by
    intro c h
    rw [List.length_singleton] at h
    exact if_pos (by omega)
  cases q with
  | char c => exact ⟨f, char hlong⟩
  | percent => exact ⟨f, char hlong⟩
  | _ => exact ⟨f, VPrintf.putText_of_long hlong⟩

/-- A string with an `EOF` in it ends the call. -/
theorem Piece.send_of_not_passes (hq : ¬ q.passes) : ∃ f', q.send f = .leave f' := by
  cases q with
  | string str =>
    have heof : 0xFF ∈ str.chars := not_not.1 hq
    by_cases hfit : VPrintf.remaining f < str.chars.length
    · exact ⟨f, VPrintf.putText_of_long hfit⟩
    · obtain ⟨f', hf'⟩ := VPrintf.putLoop_of_eof (f := f) heof
      exact ⟨f', (if_neg hfit).trans hf'⟩
  | _ => exact absurd trivial hq

end Turn

/-! ## A format -/

section Formats

variable {m : Mem} {p w : Nat} {r : List Arg} {o : List Byte} {d : Directive}
  {ds : List Directive}

/-- A directive is read as its piece. -/
theorem readPiece_directive (h : m.HoldsAt p d.format) (r : List Arg) :
    readPiece m p (d.parameters ++ r) = some (d.piece, p + d.format.length, r) := by
  unfold readPiece
  dsimp only
  cases d with
  | literal c hc =>
    have h0 : m p = c := h 0 Nat.zero_lt_one
    rw [h0, if_neg hc.2]
    rfl
  | longDec i | longUint i | longHex i =>
    have h0 : m p = ch '%' := h 0 (Nat.zero_lt_succ 3)
    have h1 : m (p + 1) = ch 'l' := h 1 (show 1 < 4 by decide)
    have h3 := h 3 (Nat.lt_succ_self 3)
    rw [if_pos h0, h1, h3]
    rfl
  | _ =>
    have h0 : m p = ch '%' := h 0 Nat.two_pos
    have h1 := h 1 Nat.one_lt_two
    rw [if_pos h0, h1]
    rfl

theorem format_more (h : m.HoldsAt p d.format) : m p ≠ 0 := by
  cases d with
  | literal c hc =>
    have h0 : m p = c := h 0 Nat.zero_lt_one
    rw [h0]
    exact hc.1
  | _ =>
    have h0 : m p = ch '%' := h 0 (Nat.zero_lt_succ _)
    rw [h0]
    decide

theorem formatOf_cons (d : Directive) (ds : List Directive) :
    formatOf (d :: ds) = d.format ++ formatOf ds := rfl

theorem parametersOf_cons (d : Directive) (ds : List Directive) :
    parametersOf (d :: ds) = d.parameters ++ parametersOf ds := rfl

theorem printedText_cons (d : Directive) (ds : List Directive) :
    printedText (d :: ds) = d.text ++ printedText ds := rfl

/-- The turn on a directive that fits and passes. -/
theorem turn_directive (h : m.HoldsAt p d.format) (hfit : w + d.text.length ≤ intMax)
    (hd : d.piece.passes) :
    vprintfTurn m ⟨p, d.parameters ++ r, w, o⟩ =
      .next ⟨p + d.format.length, r, w + d.text.length, o ++ d.text⟩ := by
  have hroom : d.piece.text.length ≤ intMax - w := Nat.le_sub_of_add_le' hfit
  rw [vprintfTurn_of_readPiece (f := ⟨p, d.parameters ++ r, w, o⟩)
    (readPiece_directive h r)]
  exact Piece.send_of_passes hroom hd

/-- When every string passes, the loop goes through the whole format. -/
theorem visits_end (h : m.HoldsAt p (formatOf ds))
    (hfit : w + (printedText ds).length ≤ intMax) (hd : ∀ d ∈ ds, d.piece.passes) :
    Visits (vprintfMore m) (vprintfTurn m) ⟨p, parametersOf ds ++ r, w, o⟩
      ⟨p + (formatOf ds).length, r, w + (printedText ds).length, o ++ printedText ds⟩ := by
  induction ds generalizing p w o with
  | nil =>
    rw [show o ++ printedText [] = o from List.append_nil o]
    exact .here
  | cons d ds ih =>
    rw [formatOf_cons, Mem.holdsAt_append] at h
    rw [printedText_cons, List.length_append] at hfit
    have hmore : vprintfMore m ⟨p, d.parameters ++ (parametersOf ds ++ r), w, o⟩ = true :=
      decide_eq_true (format_more h.1)
    have hturn := turn_directive (w := w) (r := parametersOf ds ++ r) (o := o) h.1
      (by omega) (hd d List.mem_cons_self)
    have hrest := ih (w := w + d.text.length) (o := o ++ d.text) h.2 (by omega)
      fun d' hd' => hd d' (List.mem_cons_of_mem _ hd')
    rw [formatOf_cons, printedText_cons, parametersOf_cons, List.length_append, List.length_append,
      List.append_assoc, ← List.append_assoc o, ← Nat.add_assoc, ← Nat.add_assoc]
    exact .next hmore hturn hrest

/-- When one does not, the loop is left at the first such. -/
theorem visits_leave (h : m.HoldsAt p (formatOf ds))
    (hfit : w + (printedText ds).length ≤ intMax) (hd : ¬ ∀ d ∈ ds, d.piece.passes) :
    ∃ f f', Visits (vprintfMore m) (vprintfTurn m) ⟨p, parametersOf ds ++ r, w, o⟩ f ∧
      vprintfMore m f = true ∧ vprintfTurn m f = .leave f' := by
  induction ds generalizing p w o with
  | nil => exact absurd (fun d hd => absurd hd List.not_mem_nil) hd
  | cons d ds ih =>
    rw [formatOf_cons, Mem.holdsAt_append] at h
    rw [printedText_cons, List.length_append] at hfit
    rw [parametersOf_cons, List.append_assoc]
    have hmore : vprintfMore m ⟨p, d.parameters ++ (parametersOf ds ++ r), w, o⟩ = true :=
      decide_eq_true (format_more h.1)
    by_cases hpass : d.piece.passes
    · have hrest : ¬ ∀ d ∈ ds, d.piece.passes :=
        fun hrest => hd (List.forall_mem_cons.2 ⟨hpass, hrest⟩)
      obtain ⟨f, f', hv, hf⟩ := ih (w := w + d.text.length) (o := o ++ d.text)
        h.2 (by omega) hrest
      exact ⟨f, f', .next hmore (turn_directive h.1 (by omega) hpass) hv, hf⟩
    · obtain ⟨f', hf'⟩ := Piece.send_of_not_passes hpass
      refine ⟨_, f', .here, hmore, ?_⟩
      rw [vprintfTurn_of_readPiece
        (f := ⟨p, d.parameters ++ (parametersOf ds ++ r), w, o⟩)
        (readPiece_directive h.1 (parametersOf ds ++ r)), hf']

end Formats

theorem passes_iff {ds : List Directive} : (∀ d ∈ ds, d.piece.passes) ↔
    ∀ str, Directive.string str ∈ ds → 0xFF ∉ str.chars := by
  constructor
  · exact fun h str hstr => h _ hstr
  · intro h d hd
    cases d with
    | string str => exact h str hd
    | _ => trivial

/-- The state of `vprintf` at its first turn. -/
def started (parameters : List Arg) : VPrintf := ⟨0, parameters, 0, []⟩

/-- `vprintf` ends as its loop does where the visits end. -/
theorem vprintf_of_visits {m : Mem} {parameters : List Arg} {f : VPrintf} {e : Ended VPrintf}
    (hv : Visits (vprintfMore m) (vprintfTurn m) (started parameters) f)
    (hend : ∀ fuel, loop (vprintfMore m) (vprintfTurn m) (fuel + 1) f = e) :
    vprintf m parameters = e.map Formatter.out := by
  have hends : loop (vprintfMore m) (vprintfTurn m) (formatFuel parameters) (started parameters) ≠
      .unfinished :=
    fun hrun => vprintf_ends m parameters (congrArg (Ended.map Formatter.out) hrun)
  exact congrArg (Ended.map Formatter.out) (loop_of_visits hv hend hends)

/-- Where every piece passes, the format is sent whole. -/
theorem vprintf_of_passes (m : Mem) (ds : List Directive) (rest : List Arg)
    (hm : m.HoldsAt 0 (formatOf ds ++ [0])) (hlen : (printedText ds).length ≤ intMax)
    (hd : ∀ d ∈ ds, d.piece.passes) :
    vprintf m (parametersOf ds ++ rest) = .done ⟨(printedText ds).length, printedText ds⟩ := by
  rw [Mem.holdsAt_append, Nat.zero_add] at hm
  have hv := visits_end (r := rest) (w := 0) (o := []) hm.1 (by omega) hd
  have hstop : m (formatOf ds).length = 0 := hm.2 0 Nat.one_pos
  rw [vprintf_of_visits hv fun fuel => loop_of_not_more (by simp [vprintfMore, hstop])]
  simp [Ended.map]

/-- `vprintf` sends a format whole, and returns the number of characters, just when no string
has a byte 0xFF. -/
theorem vprintf_emits_iff (m : Mem) (ds : List Directive) (rest : List Arg)
    (hm : m.HoldsAt 0 (formatOf ds ++ [0])) (hlen : (printedText ds).length ≤ intMax) :
    vprintf m (parametersOf ds ++ rest) = .done ⟨(printedText ds).length, printedText ds⟩ ↔
      ∀ str, Directive.string str ∈ ds → 0xFF ∉ str.chars := by
  rw [← passes_iff]
  refine ⟨fun hdone => ?_, vprintf_of_passes m ds rest hm hlen⟩
  rw [Mem.holdsAt_append, Nat.zero_add] at hm
  by_contra hd
  obtain ⟨f, f', hv, hmore, hturn⟩ := visits_leave (r := rest) (w := 0) (o := []) hm.1
    (by omega) hd
  have hleft := vprintf_of_visits hv fun fuel => loop_of_leave hmore hturn
  cases hleft.symm.trans hdone

theorem sampleFormat_holdsAt (text : String) :
    (sampleFormat text).HoldsAt 0 (text.toList.map ch ++ [0]) := by
  intro k hk
  unfold sampleFormat
  rw [Nat.zero_add, List.getD_eq_getElem?_getD]
  by_cases hlt : k < (text.toList.map ch).length
  · rw [List.getElem_append_left hlt, List.getElem?_eq_getElem hlt, Option.getD_some]
  · rw [List.length_append, List.length_singleton] at hk
    rw [List.getElem_append_right (by omega), List.getElem?_eq_none (by omega)]
    simp

theorem vprintf_emits_iff_dec :
    vprintf (sampleFormat "a%d") [.int 5] = .done ⟨2, [ch 'a', ch '5']⟩ :=
  (vprintf_emits_iff (sampleFormat "a%d") [.literal (ch 'a') (by decide), .dec 5] []
    (sampleFormat_holdsAt "a%d") (by decide)).2 (by simp)

/-- The string of the one byte 0xFF. -/
def eofString : CString := ⟨[0xFF], by decide⟩

/-- Nothing is counted of a string that starts with the byte 0xFF. -/
theorem vprintf_not_emits : ¬ ∀ (m : Mem) (ds : List Directive), m.HoldsAt 0 (formatOf ds ++ [0]) →
    (printedText ds).length ≤ intMax →
      vprintf m (parametersOf ds) = .done ⟨(printedText ds).length, printedText ds⟩ := by
  intro h
  have hdone := h (sampleFormat "%s") [.string eofString] (sampleFormat_holdsAt "%s") (by decide)
  have hleft : vprintf (sampleFormat "%s") [.string eofString] = .left ⟨0, [0xFF]⟩ := by
    decide +kernel
  cases hleft.symm.trans hdone

end BrownieOS.LibC
