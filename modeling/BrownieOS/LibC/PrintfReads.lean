import BrownieOS.LibC.Compare
import BrownieOS.LibC.PrintfEmits

/-!
# How far `vprintf` reads its format

A turn reads up to four characters, and steps behind them. After a `%` the terminator has a
case of its own. Behind a `%l` it has none: the character there is skipped whatever it is, and
the one behind that is taken for a `d`.
-/
namespace BrownieOS.LibC

open BrownieOS.Lib Word32

/-- Where the head of the loop and the turn behind it read the format. -/
def formatReads (m : Mem) (format : Nat) : List Nat :=
  if m format = ch '%' then
    if m (format + 1) = ch 'l' then [format, format + 1, format + 2, format + 3]
    else [format, format + 1]
  else [format]

/-- A directive that the end of the format cuts short. -/
def Unfinished (m : Mem) (l p : Nat) : Prop :=
  m p = ch '%' ∧ (p + 1 = l ∨ m (p + 1) = ch 'l' ∧ (p + 2 = l ∨ p + 3 = l))

/-- Nothing behind the terminator at `l` is read, the call comes back, and with -1 from an
unfinished directive. -/
structure StaysInFormat (m : Mem) (parameters : List Arg) (l : Nat) : Prop where
  within : ∀ f, Visits (vprintfMore m) (vprintfTurn m) (started parameters) f →
    ∀ i ∈ formatReads m f.format, i ≤ l
  returns : vprintf m parameters ≠ .unfinished
  refused : ∀ f, Visits (vprintfMore m) (vprintfTurn m) (started parameters) f →
    Unfinished m l f.format → ∃ t, vprintf m parameters = .left t

/-- A `%l` at `p` that the end of the format cuts short. With one character behind the `l` the
directive is complete for the code, which comes to -1 only for a number it has no room for. -/
def CutLong (m : Mem) (l p : Nat) (parameters : List Arg) (written : Nat) : Prop :=
  m p = ch '%' ∧ m (p + 1) = ch 'l' ∧ (p + 2 = l ∨ p + 3 = l ∧
    ¬ ∃ q p' ps', readPiece m p parameters = some (q, p', ps') ∧ intMax - written < q.text.length)

/-- `vprintf` comes to such a `%l`: the pieces before it fit and pass. -/
inductive ReachesCutLong (m : Mem) (l : Nat) : Nat → List Arg → Nat → Prop
  | here {p written : Nat} {ps : List Arg} : CutLong m l p ps written →
      ReachesCutLong m l p ps written
  | later {p p' written : Nat} {ps ps' : List Arg} {q : Piece} : m p ≠ 0 →
      readPiece m p ps = some (q, p', ps') → q.text.length ≤ intMax - written → q.passes →
      ReachesCutLong m l p' ps' (written + q.text.length) → ReachesCutLong m l p ps written

section Reads

variable {m m' : Mem} {l : Nat} {f f' : VPrintf} {parameters : List Arg}

/-! ## Turns -/

/-- The turn that goes on from a piece. -/
theorem turn_of_piece {q : Piece} {p' : Nat} {ps' : List Arg}
    (h : readPiece m f.format f.parameters = some (q, p', ps'))
    (hfit : q.text.length ≤ intMax - f.out.written) (hq : q.passes) :
    vprintfTurn m f =
      .next ⟨p', ps', f.out.written + q.text.length, f.out.sent ++ q.text⟩ :=
  (vprintfTurn_of_readPiece h).trans (Piece.send_of_passes hfit hq)

/-- A turn goes on from a piece that fits and passes only. -/
theorem piece_of_turn (h : vprintfTurn m f = .next f') :
    ∃ q, readPiece m f.format f.parameters = some (q, f'.format, f'.parameters) ∧
      q.text.length ≤ intMax - f.out.written ∧ q.passes ∧
      f'.out.written = f.out.written + q.text.length := by
  obtain ⟨q, hread, hfit, hout⟩ := vprintfTurn_next h
  refine ⟨q, hread, hfit, ?_, by rw [hout]⟩
  by_contra hq
  obtain ⟨f₁, hf₁⟩ := Piece.send_of_not_passes (f := ⟨f'.format, f'.parameters, f.out⟩) hq
  cases (h.symm.trans (vprintfTurn_of_readPiece hread)).trans hf₁

section Pieces

variable {p p' : Nat} {ps ps' : List Arg} {q : Piece}

/-- A `%l` takes four characters, and a number. -/
theorem readPiece_long (hp : m p = ch '%') (hl : m (p + 1) = ch 'l')
    (h : readPiece m p ps = some (q, p', ps')) : p' = p + 4 ∧ q.passes := by
  have hlong : ∀ {piece : BitVec 64 → Piece} {format : Nat},
      readLongLong ps piece format = some (q, p', ps') → (∀ v, (piece v).passes) →
        p' = format ∧ q.passes := by
    intro piece format h hpass
    unfold readLongLong at h
    split at h
    · rename_i v _ _
      cases h
      exact ⟨rfl, hpass v⟩
    · cases h
  unfold readPiece at h
  dsimp only at h
  rw [if_pos hp, if_pos hl] at h
  split_ifs at h
  · exact hlong h fun _ => trivial
  · exact hlong h fun _ => trivial
  · exact hlong h fun _ => trivial

/-- A piece takes one character of the format, or two, or four. -/
theorem readPiece_format (h : readPiece m p ps = some (q, p', ps')) :
    p' = p + 1 ∨ m p = ch '%' ∧ m (p + 1) ≠ 0 ∧ p' = p + 2 ∨
      m p = ch '%' ∧ m (p + 1) = ch 'l' ∧ p' = p + 4 := by
  have hint : ∀ {piece : BitVec 32 → Piece} {format : Nat},
      readInt ps piece format = some (q, p', ps') → p' = format := by
    intro piece format h
    obtain ⟨-, -, -, hp'⟩ := readInt_eq_some h
    exact hp'
  by_cases hp : m p = ch '%'
  · by_cases hl : m (p + 1) = ch 'l'
    · exact Or.inr (Or.inr ⟨hp, hl, (readPiece_long hp hl h).1⟩)
    unfold readPiece at h
    dsimp only at h
    rw [if_pos hp, if_neg hl] at h
    refine Or.inr (Or.inl ⟨hp, fun h0 => ?_, ?_⟩)
    · rw [h0] at h
      cases h
    · split_ifs at h
      · exact hint h
      · obtain ⟨-, -, -, hp'⟩ := readString_eq_some h
        exact hp'
      · exact hint h
      · exact hint h
      · exact hint h
      · exact hint h
      · cases h
        rfl
  · unfold readPiece at h
    rw [if_neg hp] at h
    cases h
    exact Or.inl rfl

end Pieces

theorem Formatter.vaLongLong_none {f₁ : VPrintf} {piece : BitVec 64 → Piece} {format : Nat}
    (h : readLongLong f.parameters piece format = none)
    (k : BitVec 64 → VPrintf → Turn VPrintf) (hf : f₁.parameters = f.parameters) :
    f₁.vaLongLong k = .undefined := by
  unfold Formatter.vaLongLong
  rw [hf]
  revert h
  generalize f.parameters = ps
  intro h
  rcases ps with _ | ⟨v | v | v, ps⟩
  · rfl
  · rfl
  · cases h
  · rfl

/-- A `%l` without its argument is undefined. -/
theorem turn_of_long_none (hp : m f.format = ch '%') (hl : m (f.format + 1) = ch 'l')
    (h : readPiece m f.format f.parameters = none) : vprintfTurn m f = .undefined := by
  unfold readPiece at h
  dsimp only at h
  rw [if_pos hp, if_pos hl] at h
  unfold vprintfTurn vprintfDirective vprintfLong
  dsimp only
  rw [if_pos hp, if_pos (show m f.advance.format = ch 'l' from hl)]
  rw [show m f.advance.advance.advance.format = m (f.format + 3) from rfl]
  split_ifs at h ⊢
  · exact Formatter.vaLongLong_none h _ rfl
  · exact Formatter.vaLongLong_none h _ rfl
  · exact Formatter.vaLongLong_none h _ rfl

/-! ## Runs -/

theorem vprintf_left (hv : Visits (vprintfMore m) (vprintfTurn m) (started parameters) f)
    (hm : vprintfMore m f = true) (ht : vprintfTurn m f = .leave f') :
    ∃ t, vprintf m parameters = .left t :=
  ⟨f'.out, vprintf_of_visits hv fun _ => loop_of_leave hm ht⟩

/-- The loop comes to the `%l` that the predicate names. -/
theorem ReachesCutLong.visits {p written : Nat} {ps : List Arg}
    (h : ReachesCutLong m l p ps written) (sent : List Byte) :
    ∃ f, Visits (vprintfMore m) (vprintfTurn m) ⟨p, ps, written, sent⟩ f ∧
      CutLong m l f.format f.parameters f.out.written := by
  induction h generalizing sent with
  | here hcut => exact ⟨_, .here, hcut⟩
  | later hp hread hfit hq _ ih =>
    rename_i p p' written ps ps' q _
    obtain ⟨f, hv, hcut⟩ := ih (sent ++ q.text)
    exact ⟨f, .next (decide_eq_true hp)
      (turn_of_piece (f := ⟨p, ps, written, sent⟩) hread hfit hq) hv, hcut⟩

/-- From such a `%l` the format is overrun, or the call does not come back with -1. -/
theorem StaysInFormat.no_cutLong (h : StaysInFormat m parameters l)
    (hv : Visits (vprintfMore m) (vprintfTurn m) (started parameters) f) :
    ¬ CutLong m l f.format f.parameters f.out.written := by
  intro hcut
  obtain ⟨hp, hl, hend⟩ := hcut
  have hmore : vprintfMore m f = true := decide_eq_true (by rw [hp]; decide)
  rcases hend with h2 | ⟨h3, hroom⟩
  · -- the turn itself reads the character behind the terminator
    have := h.within f hv (f.format + 3) (by
      unfold formatReads
      rw [if_pos hp, if_pos hl]
      simp)
    omega
  · cases hread : readPiece m f.format f.parameters with
    | none =>
      obtain ⟨t, ht⟩ := h.refused f hv ⟨hp, Or.inr ⟨hl, Or.inr h3⟩⟩
      have hundefined := vprintf_of_visits hv (e := .undefined) fun fuel => by
        rw [loop, if_pos hmore, turn_of_long_none hp hl hread]
      cases ht.symm.trans hundefined
    | some read =>
      obtain ⟨q, p', ps'⟩ := read
      obtain ⟨rfl, hq⟩ := readPiece_long hp hl hread
      -- the next turn starts behind the terminator
      have hfit : q.text.length ≤ intMax - f.out.written :=
        Nat.le_of_not_lt fun hlong => hroom ⟨q, _, _, hread, hlong⟩
      have hnext := hv.trans (.next hmore (turn_of_piece hread hfit hq) .here)
      have := h.within _ hnext (f.format + 4) (by
        unfold formatReads
        split_ifs <;> exact List.mem_cons_self)
      omega

/-- While no such `%l` is ahead, `format` stands at the terminator at most. -/
structure Inside (m : Mem) (l : Nat) (f : VPrintf) : Prop where
  le : f.format ≤ l
  ahead : ¬ ReachesCutLong m l f.format f.parameters f.out.written

theorem Inside.lt (h : Inside m l f) (hl : m l = 0) (hp : m f.format ≠ 0) : f.format < l := by
  refine Nat.lt_of_le_of_ne h.le fun he => hp ?_
  rw [he]
  exact hl

/-- What stands behind a `%l` that is no `CutLong`. -/
theorem Inside.long (h : Inside m l f) (hend : m l = 0) (hp : m f.format = ch '%')
    (hl : m (f.format + 1) = ch 'l') : f.format + 3 ≤ l := by
  have hlt := h.lt hend (by rw [hp]; decide)
  have h1 : f.format + 1 ≠ l := fun he => absurd (hl.symm.trans ((congrArg m he).trans hend)) (by decide)
  have h2 : f.format + 2 ≠ l := fun he => h.ahead (.here ⟨hp, hl, Or.inl he⟩)
  omega

theorem Inside.reads (h : Inside m l f) (hend : m l = 0) : ∀ i ∈ formatReads m f.format, i ≤ l := by
  have hle := h.le
  unfold formatReads
  split_ifs with hp hl
  · have := h.long hend hp hl
    simp only [List.mem_cons, List.not_mem_nil, or_false]
    omega
  · have := h.lt hend (by rw [hp]; decide)
    simp only [List.mem_cons, List.not_mem_nil, or_false]
    omega
  · simp only [List.mem_singleton]
    omega

/-- A turn keeps it so. -/
theorem Inside.next (h : Inside m l f) (hend : m l = 0) (hmore : vprintfMore m f = true)
    (ht : vprintfTurn m f = .next f') : Inside m l f' := by
  have hp : m f.format ≠ 0 := of_decide_eq_true hmore
  obtain ⟨q, hread, hfit, hq, hout⟩ := piece_of_turn ht
  refine ⟨?_, fun hahead => h.ahead (.later hp hread hfit hq (hout ▸ hahead))⟩
  have hlt := h.lt hend hp
  rcases readPiece_format hread with h1 | ⟨-, h0, h2⟩ | ⟨hpercent, hl, h4⟩
  · omega
  · have hne : f.format + 1 ≠ l := fun he => h0 (by rw [he]; exact hend)
    omega
  · -- with one character behind the `l` the number does not fit
    have h3 := h.long hend hpercent hl
    have hne : f.format + 3 ≠ l := by
      intro he
      refine h.ahead (.here ⟨hpercent, hl, Or.inr ⟨he, fun hlong => ?_⟩⟩)
      obtain ⟨q', p', ps', hread', hlong⟩ := hlong
      cases hread.symm.trans hread'
      exact Nat.not_lt.2 hfit hlong
    omega

theorem Inside.refused (h : Inside m l f) (hend : m l = 0) (hu : Unfinished m l f.format) :
    ∃ f', vprintfTurn m f = .leave f' := by
  obtain ⟨hp, h1 | ⟨hl, h23⟩⟩ := hu
  · refine ⟨f.advance, ?_⟩
    have h0 : m (f.format + 1) = 0 := by
      rw [h1]
      exact hend
    unfold vprintfTurn vprintfDirective
    dsimp only [Formatter.advance]
    rw [if_pos hp, h0]
    rfl
  · have h3 : f.format + 3 = l := by
      have := h.long hend hp hl
      omega
    by_contra hnext
    refine h.ahead (.here ⟨hp, hl, Or.inr ⟨h3, fun hlong => hnext ?_⟩⟩)
    obtain ⟨q, p', ps', hread, hlong⟩ := hlong
    rw [vprintfTurn_of_readPiece hread]
    exact Piece.send_of_long (f := ⟨p', ps', f.out⟩) hlong

/-- `vprintf` keeps inside its format just when it does not come to a `%l` that the end of
the format cuts short. -/
theorem vprintf_stays_iff (m : Mem) (str : List Byte) (parameters : List Arg)
    (hm : IsString m str) :
    StaysInFormat m parameters str.length ↔ ¬ ReachesCutLong m str.length 0 parameters 0 := by
  have hend : m str.length = 0 := by
    have := hm.held str.length (by simp)
    simpa using this
  constructor
  · intro h hreach
    obtain ⟨f, hv, hcut⟩ := hreach.visits []
    exact h.no_cutLong hv hcut
  · intro hreach
    have inside : ∀ f, Visits (vprintfMore m) (vprintfTurn m) (started parameters) f →
        Inside m str.length f :=
      fun f hv => hv.invariant (fun f f' hmore ht h => h.next hend hmore ht)
        ⟨Nat.zero_le _, hreach⟩
    refine ⟨fun f hv => (inside f hv).reads hend, vprintf_ends m parameters, fun f hv hu => ?_⟩
    obtain ⟨f', ht⟩ := (inside f hv).refused hend hu
    exact vprintf_left hv (decide_eq_true (by rw [hu.1]; decide)) ht

end Reads

theorem isString_sampleFormat {t : String} (h : 0 ∉ t.toList.map ch) :
    IsString (sampleFormat t) (t.toList.map ch) :=
  ⟨h, sampleFormat_holdsAt t⟩

theorem vprintf_stays_iff_percent : StaysInFormat (sampleFormat "%") [] 1 := by
  refine (vprintf_stays_iff (sampleFormat "%") [ch '%'] []
    (isString_sampleFormat (t := "%") (by decide))).2 fun h => ?_
  cases h with
  | here hcut => exact absurd hcut.2.1 (by decide)
  | later _ hread => cases hread

/-- The character behind the terminator of `%l` is read. -/
theorem vprintf_not_stays : ¬ ∀ (m : Mem) (str : List Byte) (parameters : List Arg),
    IsString m str → StaysInFormat m parameters str.length := by
  intro h
  have hstays := h (sampleFormat "%l") [ch '%', ch 'l'] []
    (isString_sampleFormat (t := "%l") (by decide))
  exact hstays.no_cutLong .here ⟨by decide, by decide, Or.inl rfl⟩

end BrownieOS.LibC
