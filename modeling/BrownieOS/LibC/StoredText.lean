import BrownieOS.LibC.PrintfSame

/-!
# What `vsnprintf` stores, and where

A directive of `vsnprintf` is one character, or a text that is cut at the bound. The bound is
tested with two expressions: `n - 1` is unsigned at the head of the loop and signed inside a
text. For `n` from 1 on both keep the writes below `n`. For 0 the unsigned one wraps to the
largest bound there is, and the terminator is written in any case.
-/
namespace BrownieOS.LibC

open BrownieOS.Lib Word32 VSnprintf

/-- What `vsnprintf` finds at `format`, with where it goes on. -/
inductive Reading where
  | char (c : Byte) (format : Nat) (parameters : List Arg)
  | text (str : List Byte) (format : Nat) (parameters : List Arg)
  | lone
  | undefined

/-- A directive that takes an `int`. -/
def Reading.ofInt (parameters : List Arg) (k : BitVec 32 → List Arg → Reading) : Reading :=
  match parameters with
  | .int v :: parameters => k v parameters
  | _ => .undefined

/-- A directive that takes a string. -/
def Reading.ofString (parameters : List Arg) (k : CString → List Arg → Reading) : Reading :=
  match parameters with
  | .string str :: parameters => k str parameters
  | _ => .undefined

/-- The directives of `vsnprintf`: an unknown one prints a percent sign. -/
def readStored (m : Mem) (format : Nat) (parameters : List Arg) : Reading :=
  if m format = ch '%' then
    let c := m (format + 1)
    if c = ch 'c' then .ofInt parameters fun v ps => .char (v.setWidth 8) (format + 2) ps
    else if c = ch 's' then .ofString parameters fun str ps => .text str.chars (format + 2) ps
    else if c = ch 'd' ∨ c = ch 'i' then
      .ofInt parameters fun i ps => .text (itoa i 10) (format + 2) ps
    else if c = ch 'x' then .ofInt parameters fun i ps => .text (utoa i 16) (format + 2) ps
    else if c = 0 then .lone
    else .char (ch '%') (format + 2) parameters
  else .char (m format) (format + 1) parameters

/-- No byte at an index from `n` on is written, whatever the buffer holds and whether the call
returns a count or -1. -/
def WithinBound (n : Nat) (m : Mem) (parameters : List Arg) : Prop :=
  ∀ s b, vsnprintf s n m parameters = .done b ∨ vsnprintf s n m parameters = .left b →
    ∀ i, n ≤ i → b.s i = s i

/-- The format ends at a NUL, and every directive up to there finds the argument it takes. -/
inductive Matching (m : Mem) : Nat → List Arg → Prop
  | stop {p : Nat} {ps : List Arg} : m p = 0 → Matching m p ps
  | lone {p : Nat} {ps : List Arg} : m p ≠ 0 → readStored m p ps = .lone → Matching m p ps
  | char {p p' : Nat} {ps ps' : List Arg} {c : Byte} : m p ≠ 0 →
      readStored m p ps = .char c p' ps' → Matching m p' ps' → Matching m p ps
  | text {p p' : Nat} {ps ps' : List Arg} {str : List Byte} : m p ≠ 0 →
      readStored m p ps = .text str p' ps' → Matching m p' ps' → Matching m p ps

/-- From `format` on there are only texts, up to a `%` that nothing follows or to a text that is
too long: `vsnprintf` with a size of 0 returns -1 there and has stored nothing. -/
inductive FailsSilently (m : Mem) : Nat → List Arg → Prop
  | lone {p : Nat} {ps : List Arg} : m p ≠ 0 → readStored m p ps = .lone → FailsSilently m p ps
  | long {p p' : Nat} {ps ps' : List Arg} {str : List Byte} : m p ≠ 0 →
      readStored m p ps = .text str p' ps' → intMax < str.length → FailsSilently m p ps
  | text {p p' : Nat} {ps ps' : List Arg} {str : List Byte} : m p ≠ 0 →
      readStored m p ps = .text str p' ps' → str.length ≤ intMax → FailsSilently m p' ps' →
      FailsSilently m p ps

/-- The characters counted in what a call returns. -/
def Buffer.text (b : Buffer) : List Byte := (List.range b.written).map b.s

section Turn

variable {m s : Mem} {n p p' : Nat} {ps ps' : List Arg} {out : List Byte} {f f' : VSnprintf} {c : Byte}
  {str : List Byte}

/-- A turn is what is read there, put into the buffer. -/
theorem vsnprintfTurn_eq (n : Nat) (m : Mem) (f : VSnprintf) : vsnprintfTurn n m f =
    match readStored m f.format f.parameters with
    | .char c p ps => VSnprintf.putChar ⟨p, ps, f.out⟩ c
    | .text str p ps => VSnprintf.putText n ⟨p, ps, f.out⟩ str
    | .lone => .leave f.advance
    | .undefined => .undefined := by
  obtain ⟨p, ps, out⟩ := f
  unfold vsnprintfTurn vsnprintfDirective readStored
  dsimp only [Formatter.advance]
  split_ifs <;> first
    | rfl
    | rcases ps with _ | ⟨_ | _ | _, ps⟩ <;> rfl

theorem vsnprintfTurn_char (hread : readStored m f.format f.parameters = .char c p ps) :
    vsnprintfTurn n m f = VSnprintf.putChar ⟨p, ps, f.out⟩ c := by
  rw [vsnprintfTurn_eq, hread]

theorem vsnprintfTurn_text (hread : readStored m f.format f.parameters = .text str p ps) :
    vsnprintfTurn n m f = VSnprintf.putText n ⟨p, ps, f.out⟩ str := by
  rw [vsnprintfTurn_eq, hread]

theorem vsnprintfTurn_lone (hread : readStored m f.format f.parameters = .lone) :
    vsnprintfTurn n m f = .leave f.advance := by
  rw [vsnprintfTurn_eq, hread]

theorem vsnprintfTurn_undefined (hread : readStored m f.format f.parameters = .undefined) :
    vsnprintfTurn n m f = .undefined := by
  rw [vsnprintfTurn_eq, hread]

/-! ## Sizes from 1 on -/

/-- `written` is below the size, and nothing at or behind it has changed. -/
structure Bounded (s : Mem) (n : Nat) (b : Buffer) : Prop where
  written : b.written < n
  kept : ∀ i, n ≤ i → b.s i = s i

theorem Bounded.put (h : Bounded s n f.out) (hroom : f.out.written + 1 < n) (c : Byte) :
    Bounded s n (f.put c).out := by
  refine ⟨hroom, fun i hi => ?_⟩
  have hne : i ≠ f.out.written := by omega
  exact (Function.update_of_ne hne c f.out.s).trans (h.kept i hi)

theorem toInt_ofNat_le (n : Nat) : (BitVec.ofNat 32 n).toInt ≤ n := by
  have hle : (BitVec.ofNat 32 n).toNat ≤ n := by
    rw [BitVec.toNat_ofNat]
    exact Nat.mod_le _ _
  rw [BitVec.toInt_eq_toNat_cond]
  split
  · omega
  · omega

/-- The signed test keeps the writes below the size, for sizes above `INT_MAX` too. -/
theorem Bounded.putLoop (h : Bounded s n f.out) (str : List Byte) :
    Bounded s n (f.putLoop n str).out := by
  induction str generalizing f with
  | nil => exact h
  | cons c str ih =>
    rw [VSnprintf.putLoop]
    split
    · rename_i hlt
      have := toInt_ofNat_le n
      exact ih (h.put (by omega) c)
    · exact h

theorem vsnprintfMore_room (hn : 0 < n) (hn' : n < 4294967296) (h : vsnprintfMore n m f = true) :
    m f.format ≠ 0 ∧ f.out.written + 1 < n := by
  have hw : wsub n 1 = n - 1 := wsub_of_le hn hn'
  unfold vsnprintfMore at h
  rw [hw, decide_eq_true_eq] at h
  exact ⟨h.1, by omega⟩

theorem Bounded.next (h : Bounded s n f.out) (hroom : f.out.written + 1 < n)
    (ht : vsnprintfTurn n m f = .next f') : Bounded s n f'.out := by
  rw [vsnprintfTurn_eq] at ht
  split at ht
  · unfold VSnprintf.putChar at ht
    split at ht
    · cases ht
    · cases ht
      exact Bounded.put (f := ⟨_, _, f.out⟩) h hroom _
  · rename_i str p ps _
    unfold VSnprintf.putText at ht
    split at ht
    · cases ht
    · cases ht
      exact Bounded.putLoop (f := ⟨p, ps, f.out⟩) h str
  · cases ht
  · cases ht

/-- A turn that returns -1 has stored nothing. -/
theorem vsnprintfTurn_leave (ht : vsnprintfTurn n m f = .leave f') : f'.out = f.out := by
  rw [vsnprintfTurn_eq] at ht
  split at ht
  · unfold VSnprintf.putChar at ht
    split at ht
    · cases ht
      rfl
    · cases ht
  · unfold VSnprintf.putText at ht
    split at ht
    · cases ht
      rfl
    · cases ht
  · cases ht
    rfl
  · cases ht

/-- For sizes from 1 on nothing at or behind the size is written. -/
theorem withinBound_of_pos (hn : 0 < n) (hn' : n < 4294967296) (parameters : List Arg) :
    WithinBound n m parameters := by
  intro s b hb
  have step : ∀ f f₁, vsnprintfMore n m f = true → vsnprintfTurn n m f = .next f₁ →
      Bounded s n f.out → Bounded s n f₁.out :=
    fun f f₁ hm ht h => h.next (vsnprintfMore_room hn hn' hm).2 ht
  have start : Bounded s n (⟨0, s⟩ : Buffer) := ⟨hn, fun _ _ => rfl⟩
  rcases hb with hdone | hleft
  · obtain ⟨f, hloop, rfl⟩ := vsnprintf_eq_done.1 hdone
    have hend := (visits_of_done hloop).1.invariant (P := fun f => Bounded s n f.out) step start
    intro i hi
    have hne : i ≠ f.out.written := by
      have := hend.written
      omega
    exact (Function.update_of_ne hne 0 f.out.s).trans (hend.kept i hi)
  · obtain ⟨f, hloop, rfl⟩ := vsnprintf_eq_left.1 hleft
    obtain ⟨f₁, hv, -, ht⟩ := visits_of_left hloop
    have hend := hv.invariant (P := fun f => Bounded s n f.out) step start
    rw [vsnprintfTurn_leave ht]
    exact hend.kept

/-! ## The size 0 -/

theorem vsnprintfMore_zero :
    vsnprintfMore 0 m f = true ↔ m f.format ≠ 0 ∧ f.out.written < 4294967295 := by
  unfold vsnprintfMore
  rw [decide_eq_true_eq]
  exact Iff.rfl

/-- The signed bound of 0 is below every index. -/
theorem putLoop_zero (str : List Byte) : f.putLoop 0 str = f := by
  cases str with
  | nil => rfl
  | cons c str =>
    rw [VSnprintf.putLoop, if_neg]
    have : (BitVec.ofNat 32 0).toInt = 0 := by decide
    omega

theorem putLoop_reading (n : Nat) (str : List Byte) (f : VSnprintf) :
    (f.putLoop n str).format = f.format ∧ (f.putLoop n str).parameters = f.parameters := by
  induction str generalizing f with
  | nil => exact ⟨rfl, rfl⟩
  | cons c str ih =>
    rw [VSnprintf.putLoop]
    split
    · exact ih (f.put c)
    · exact ⟨rfl, rfl⟩

theorem Matching.next (h : Matching m f.format f.parameters) (hp : m f.format ≠ 0)
    (ht : vsnprintfTurn n m f = .next f') : Matching m f'.format f'.parameters := by
  cases h with
  | stop h0 => exact absurd h0 hp
  | lone _ hread =>
    rw [vsnprintfTurn_lone hread] at ht
    cases ht
  | char _ hread hmatch =>
    rw [vsnprintfTurn_char hread] at ht
    unfold VSnprintf.putChar at ht
    split at ht
    · cases ht
    · cases ht
      exact hmatch
  | text _ hread hmatch =>
    rename_i str _
    rw [vsnprintfTurn_text hread] at ht
    unfold VSnprintf.putText at ht
    split at ht
    · cases ht
    · cases ht
      obtain ⟨hf, hps⟩ := putLoop_reading n str ⟨_, _, f.out⟩
      rw [hf, hps]
      exact hmatch

theorem Matching.turn_ne_undefined (h : Matching m f.format f.parameters) (hp : m f.format ≠ 0) :
    vsnprintfTurn n m f ≠ .undefined := by
  cases h with
  | stop h0 => exact absurd h0 hp
  | lone _ hread =>
    rw [vsnprintfTurn_lone hread]
    exact nofun
  | char _ hread _ =>
    rw [vsnprintfTurn_char hread]
    unfold VSnprintf.putChar
    split_ifs
    · exact nofun
    · exact nofun
  | text _ hread _ =>
    rw [vsnprintfTurn_text hread]
    unfold VSnprintf.putText
    split_ifs
    · exact nofun
    · exact nofun

/-- A run never meets a missing argument. -/
theorem Matching.not_undefined (h : Matching m f.format f.parameters) (fuel : Nat) :
    loop (vsnprintfMore n m) (vsnprintfTurn n m) fuel f ≠ .undefined := by
  have more : ∀ f, vsnprintfMore n m f = true → m f.format ≠ 0 := by
    intro f hm
    unfold vsnprintfMore at hm
    rw [decide_eq_true_eq] at hm
    exact hm.1
  intro hrun
  obtain ⟨f₁, hv, hm, ht⟩ := visits_of_undefined hrun
  have hend := hv.invariant (P := fun f => Matching m f.format f.parameters)
    (fun f f' hm ht h => h.next (more f hm) ht) h
  exact hend.turn_ne_undefined (more f₁ hm) ht

/-- The byte at `i` is `c` when the call is back. -/
def LeavesByte (e : Ended VSnprintf) (i : Nat) (c : Byte) : Prop :=
  (∀ f, e = .done f → f.out.terminate.s i = c) ∧ ∀ f, e = .left f → f.out.s i = c

/-- A character that is stored stays stored. -/
theorem leavesByte_of_stored (fuel : Nat) (hf : f.out = Buffer.of s [c]) :
    LeavesByte (loop (vsnprintfMore n m) (vsnprintfTurn n m) fuel f) 0 c := by
  have step : ∀ f f₁, vsnprintfMore n m f = true → vsnprintfTurn n m f = .next f₁ →
      (∃ t, f.out = Buffer.of s (c :: t)) → ∃ t, f₁.out = Buffer.of s (c :: t) := by
    intro f f₁ _ ht hP
    obtain ⟨t, hf⟩ := hP
    obtain ⟨t', ht', -⟩ := vsnprintfTurn_grew hf ht
    exact ⟨t ++ t', ht'⟩
  constructor
  · intro f₁ hrun
    obtain ⟨t, ht⟩ := (visits_of_done hrun).1.invariant
      (P := fun f => ∃ t, f.out = Buffer.of s (c :: t)) step ⟨[], hf⟩
    rw [ht, Buffer.terminate_of]
    rfl
  · intro f₁ hrun
    obtain ⟨f₂, hv, -, hleave⟩ := visits_of_left hrun
    obtain ⟨t, ht⟩ := hv.invariant (P := fun f => ∃ t, f.out = Buffer.of s (c :: t)) step ⟨[], hf⟩
    rw [vsnprintfTurn_leave hleave, ht]
    rfl

theorem leavesByte_unfinished {i : Nat} : LeavesByte .unfinished i c := by
  constructor
  · intro f hf
    cases hf
  · intro f hf
    cases hf

theorem leavesByte_done {i : Nat} (h : f.out.terminate.s i = c) : LeavesByte (.done f) i c := by
  constructor
  · intro f' hf
    cases hf
    exact h
  · intro f' hf
    cases hf

/-- A text that is too long ends the call, and any other stores nothing. -/
theorem turn_zero_text (hread : readStored m p ps = .text str p' ps') :
    vsnprintfTurn 0 m (holding s p ps []) =
      if intMax < str.length then .leave (holding s p' ps' []) else .next (holding s p' ps' []) := by
  rw [vsnprintfTurn_text hread]
  unfold VSnprintf.putText
  rw [putLoop_zero]
  rfl

theorem more_zero_of_holding (hp : m p ≠ 0) : vsnprintfMore 0 m (holding s p ps []) = true :=
  vsnprintfMore_zero.2 ⟨hp, by change 0 < _; decide⟩

/-- With a size of 0 a text stores nothing, and a character or the terminator goes to index 0. -/
theorem leavesByte_zero (h : Matching m p ps) (hs : ¬ FailsSilently m p ps) :
    ∃ c, ∀ s fuel,
      LeavesByte (loop (vsnprintfMore 0 m) (vsnprintfTurn 0 m) fuel (holding s p ps [])) 0 c := by
  induction h with
  | stop hp =>
    refine ⟨0, fun s fuel => ?_⟩
    cases fuel with
    | zero => exact leavesByte_unfinished
    | succ fuel =>
      rw [loop_of_not_more (by simp [vsnprintfMore, holding, hp])]
      exact leavesByte_done (Function.update_self 0 0 s)
  | lone hp hread => exact absurd (.lone hp hread) hs
  | char hp hread _ _ =>
    rename_i p p' ps ps' c _ _
    refine ⟨c, fun s fuel => ?_⟩
    cases fuel with
    | zero => exact leavesByte_unfinished
    | succ fuel =>
      have hroom : 1 ≤ (holding s p' ps' []).remaining := by
        change 1 ≤ intMax - 0
        decide
      have ht : vsnprintfTurn 0 m (holding s p ps []) = .next (holding s p' ps' [c]) :=
        (vsnprintfTurn_char hread).trans (putChar_of (f := holding s p' ps' []) rfl hroom)
      rw [loop_of_next (more_zero_of_holding hp) ht]
      exact leavesByte_of_stored fuel rfl
  | text hp hread _ ih =>
    rename_i str _
    by_cases hlen : intMax < str.length
    · exact absurd (.long hp hread hlen) hs
    · obtain ⟨c, hc⟩ := ih fun hfails => hs (.text hp hread (Nat.le_of_not_lt hlen) hfails)
      refine ⟨c, fun s fuel => ?_⟩
      cases fuel with
      | zero => exact leavesByte_unfinished
      | succ fuel =>
        rw [loop_of_next (more_zero_of_holding hp) ((turn_zero_text hread).trans (if_neg hlen))]
        exact hc s fuel

/-- Nothing is stored when the format fails before a character. -/
theorem FailsSilently.stores_nothing (h : FailsSilently m p ps) {fuel : Nat} :
    (∀ f, loop (vsnprintfMore 0 m) (vsnprintfTurn 0 m) fuel (holding s p ps []) ≠ .done f) ∧
      ∀ f, loop (vsnprintfMore 0 m) (vsnprintfTurn 0 m) fuel (holding s p ps []) = .left f →
        f.out.s = s := by
  have left : ∀ {e : Ended VSnprintf} {f : VSnprintf}, e = .left f → f.out.s = s →
      (∀ f, e ≠ .done f) ∧ ∀ f, e = .left f → f.out.s = s := by
    intro e f he hf
    rw [he]
    refine ⟨fun _ => nofun, fun f' h' => ?_⟩
    cases h'
    exact hf
  cases fuel with
  | zero => exact ⟨fun _ => nofun, fun _ => nofun⟩
  | succ fuel =>
    induction h generalizing fuel with
    | lone hp hread =>
      exact left (loop_of_leave (more_zero_of_holding hp) (vsnprintfTurn_lone hread)) rfl
    | long hp hread hlen =>
      exact left (loop_of_leave (more_zero_of_holding hp)
        ((turn_zero_text hread).trans (if_pos hlen))) rfl
    | text hp hread hlen _ ih =>
      rw [loop_of_next (more_zero_of_holding hp)
        ((turn_zero_text hread).trans (if_neg (Nat.not_lt.2 hlen)))]
      cases fuel with
      | zero => exact ⟨fun _ => nofun, fun _ => nofun⟩
      | succ fuel => exact ih fuel

end Turn

/-! ## The bound -/

theorem Matching.defined {s m : Mem} {n : Nat} {parameters : List Arg}
    (h : Matching m 0 parameters) : vsnprintf s n m parameters ≠ .undefined := by
  have hloop := h.not_undefined (n := n) (f := ⟨0, parameters, 0, s⟩) (formatFuel parameters)
  unfold vsnprintf
  generalize loop (vsnprintfMore n m) (vsnprintfTurn n m) (formatFuel parameters)
    ⟨0, parameters, 0, s⟩ = e at hloop ⊢
  cases e with
  | undefined => exact absurd rfl hloop
  | _ => exact nofun

/-- `vsnprintf` writes below its size for every size but 0, and for 0 only when it returns -1
before it comes to a character or to the end of the format. -/
theorem vsnprintf_bounded_iff (n : Nat) (hn : n < 4294967296) (m : Mem) (parameters : List Arg)
    (hmatch : Matching m 0 parameters) :
    WithinBound n m parameters ↔ n ≠ 0 ∨ FailsSilently m 0 parameters := by
  constructor
  · intro hbound
    rcases Nat.eq_zero_or_pos n with rfl | hpos
    · apply Or.inr
      by_contra hfails
      obtain ⟨c, hc⟩ := leavesByte_zero hmatch hfails
      -- a buffer that holds another byte there
      obtain ⟨hdone, hleft⟩ := hc (fun _ => c + 1) (formatFuel parameters)
      have hne : c + 1 ≠ c := by bv_omega
      cases hrun : vsnprintf (fun _ => c + 1) 0 m parameters with
      | done b =>
        obtain ⟨f, hf, rfl⟩ := vsnprintf_eq_done.1 hrun
        have hkept := hbound _ _ (Or.inl hrun) 0 (Nat.le_refl 0)
        exact hne (hkept.symm.trans (hdone f hf))
      | left b =>
        obtain ⟨f, hf, rfl⟩ := vsnprintf_eq_left.1 hrun
        have hkept := hbound _ _ (Or.inr hrun) 0 (Nat.le_refl 0)
        exact hne (hkept.symm.trans (hleft f hf))
      | undefined => exact hmatch.defined hrun
      | unfinished => exact vsnprintf_ends _ _ _ _ hrun
    · exact Or.inl (Nat.pos_iff_ne_zero.1 hpos)
  · intro h
    rcases h with hpos | hfails
    · exact withinBound_of_pos (Nat.pos_of_ne_zero hpos) hn parameters
    · rcases Nat.eq_zero_or_pos n with rfl | hpos
      · intro s b hb i _
        rcases hb with hdone | hleft
        · obtain ⟨f, hf, -⟩ := vsnprintf_eq_done.1 hdone
          exact absurd hf (hfails.stores_nothing.1 f)
        · obtain ⟨f, hf, rfl⟩ := vsnprintf_eq_left.1 hleft
          exact congrFun (hfails.stores_nothing.2 f hf) i
      · exact withinBound_of_pos hpos hn parameters

theorem sampleFormat_matching : Matching (sampleFormat "%d%%") 0 [.int (-7)] :=
  .text (by decide) rfl (.char (by decide) rfl (.stop rfl))

theorem vsnprintf_bounded_iff_dec : WithinBound 2 (sampleFormat "%d%%") [.int (-7)] :=
  (vsnprintf_bounded_iff 2 (by decide) (sampleFormat "%d%%") [.int (-7)] sampleFormat_matching).2
    (Or.inl (by decide))

/-- With a size of 0 the terminator of the empty text is written all the same. -/
theorem vsnprintf_not_bounded : ¬ ∀ (n : Nat) (m : Mem) (parameters : List Arg),
    n < 4294967296 → Matching m 0 parameters → WithinBound n m parameters := by
  intro h
  have hrun : vsnprintf (fun _ => 1) 0 (sampleFormat "") [] = .done ⟨0, stored (fun _ => 1) [0]⟩ :=
    vsnprintf_eq_done.2 ⟨_, rfl, Buffer.terminate_of (fun _ => 1) []⟩
  have hkept := h 0 (sampleFormat "") [] (by decide) (.stop rfl) (fun _ => 1) _ (Or.inl hrun) 0
    (Nat.le_refl 0)
  exact absurd hkept (by decide)

/-! ## Truncation -/

section Truncation

variable {m s s₀ : Mem} {fuel n p : Nat} {ps : List Arg} {out S : List Byte} {b : Buffer}

/-- A count that is returned is that of a text, which is in the buffer with a NUL behind it. -/
theorem exists_stores (h : vsnprintf s n m ps = .done b) :
    ∃ S, Stores s n m (formatFuel ps) 0 ps [] S ∧ b = ⟨S.length, stored s (S ++ [0])⟩ := by
  obtain ⟨f, hf, rfl⟩ := vsnprintf_eq_done.1 h
  have hinv : ∃ S, f.out = Buffer.of s S := by
    refine loop_invariant (P := fun f => ∃ S, f.out = Buffer.of s S) ?_ hf ⟨[], rfl⟩
    intro f f₁ _ ht hP
    obtain ⟨S, hS⟩ := hP
    obtain ⟨t, ht', -⟩ := vsnprintfTurn_grew hS ht
    exact ⟨S ++ t, ht'⟩
  obtain ⟨S, hS⟩ := hinv
  exact ⟨S, ⟨f, hf, hS⟩, by rw [hS, Buffer.terminate_of]⟩

theorem text_of_stored (s : Mem) (S t : List Byte) :
    Buffer.text ⟨S.length, stored s (S ++ t)⟩ = S := by
  refine List.ext_getElem (by simp [Buffer.text]) fun i hi hi' => ?_
  simp [Buffer.text, stored, List.getElem?_append_left hi', List.getElem?_eq_getElem hi']

/-- A turn of the loop with the largest size, up to a text that is shorter than that, is the
same turn with a smaller size, cut there. -/
theorem Stores.turn (hp : m p ≠ 0) (hroom : out.length < n - 1) (hn' : n ≤ intMax)
    (hS : S.length < intMax - 1) (h : Stores s₀ intMax m (fuel + 1) p ps out S) :
    ∃ p' ps' t, Stores s₀ intMax m fuel p' ps' (out ++ t) S ∧
      vsnprintfTurn n m (holding s p ps out) =
        .next (holding s p' ps' (out ++ t.take (n - 1 - out.length))) := by
  obtain ⟨f, hf, hS'⟩ := h
  have hmore : vsnprintfMore intMax m (holding s₀ p ps out) = true :=
    (vsnprintfMore_eq (by decide) (Nat.le_refl _)).2 ⟨hp, by omega⟩
  rcases loop_done hf with ⟨hm, -⟩ | ⟨-, f₁, ht, h₁⟩
  · rw [hmore] at hm
    cases hm
  cases hread : readStored m p ps with
  | char c p' ps' =>
    rw [vsnprintfTurn_char hread] at ht
    obtain ⟨rfl, hrem⟩ := putChar_next (f := ⟨p', ps', Buffer.of s₀ out⟩) ht rfl
    refine ⟨p', ps', [c], ⟨f, h₁, hS'⟩, ?_⟩
    rw [vsnprintfTurn_char hread, take_singleton_of_lt c hroom]
    exact putChar_of (f := ⟨p', ps', Buffer.of s out⟩) rfl hrem
  | text str p' ps' =>
    rw [vsnprintfTurn_text hread] at ht
    have hrem : str.length ≤ intMax - out.length := by
      by_contra hlong
      have hleave : putText intMax ⟨p', ps', Buffer.of s₀ out⟩ str =
          .leave ⟨p', ps', Buffer.of s₀ out⟩ := if_pos (Nat.lt_of_not_le hlong)
      cases hleave.symm.trans ht
    have hput : putText intMax ⟨p', ps', Buffer.of s₀ out⟩ str =
        .next (holding s₀ p' ps' (out ++ str.take (intMax - 1 - out.length))) :=
      putText_of (by decide) (Nat.le_refl _) rfl hrem
    cases hput.symm.trans ht
    have hstores : Stores s₀ intMax m fuel p' ps'
        (out ++ str.take (intMax - 1 - out.length)) S := ⟨f, h₁, hS'⟩
    -- the largest size cuts nothing, or the text would be longer than it is
    have hle := hstores.prefix_text.length_le
    rw [List.length_append, List.length_take] at hle
    rw [List.take_of_length_le (by omega)] at hstores
    refine ⟨p', ps', str, hstores, ?_⟩
    rw [vsnprintfTurn_text hread]
    exact putText_of (f := ⟨p', ps', Buffer.of s out⟩) (by omega) hn' rfl hrem
  | lone =>
    rw [vsnprintfTurn_lone hread] at ht
    cases ht
  | undefined =>
    rw [vsnprintfTurn_undefined hread] at ht
    cases ht

/-- The loop with a smaller size stores the start of the text. -/
theorem Stores.take (hn : 0 < n) (hn' : n ≤ intMax) (hS : S.length < intMax - 1)
    (h : Stores s₀ intMax m fuel p ps out S) (hout : out.length ≤ n - 1) :
    Stores s n m fuel p ps out (S.take (n - 1)) := by
  induction fuel generalizing p ps out with
  | zero =>
    obtain ⟨f, hf, -⟩ := h
    cases hf
  | succ fuel ih =>
    have hpre := h.prefix_text
    by_cases hp : m p = 0
    · -- the end of the format
      have hend : S = out := (stores_stop (by decide) (Nat.le_refl _) (Or.inl hp)).1 h
      rw [stores_stop hn hn' (Or.inl hp), hend]
      exact List.take_of_length_le hout
    by_cases hfull : n - 1 ≤ out.length
    · -- the end of the buffer
      rw [stores_stop hn hn' (Or.inr hfull)]
      have hlen : n - 1 = out.length := Nat.le_antisymm hfull hout
      rw [hlen]
      exact (List.prefix_iff_eq_take.1 hpre).symm
    obtain ⟨p', ps', t, hnext, hturn⟩ := h.turn (s := s) hp (by omega) hn' hS
    rw [stores_next hn hn' hp (by omega) hturn]
    by_cases hfit : out.length + t.length ≤ n - 1
    · rw [List.take_of_length_le (by omega)]
      exact ih hnext (by rw [List.length_append]; exact hfit)
    · -- the text is cut, and nothing comes behind it
      have hcut : out ++ t.take (n - 1 - out.length) = S.take (n - 1) := by
        obtain ⟨r, rfl⟩ := hnext.prefix_text
        rw [List.append_assoc, List.take_append, List.take_of_length_le hout,
          List.take_append_of_le_length (by omega)]
      rw [hcut]
      cases fuel with
      | zero =>
        obtain ⟨f, hf, -⟩ := hnext
        cases hf
      | succ fuel =>
        refine (stores_stop hn hn' (Or.inr ?_)).2 rfl
        rw [← hcut, List.length_append, List.length_take]
        omega

/-- What `vsprintf` stores is cut at the size, with a NUL behind the cut and nothing else
written. -/
theorem vsnprintf_truncates (s₀ s m : Mem) (parameters : List Arg) (n : Nat) (b : Buffer)
    (h : vsprintf s₀ m parameters = .done b) (hlen : b.text.length < intMax - 1) (hn : 1 ≤ n)
    (hn' : n ≤ intMax) :
    vsnprintf s n m parameters =
      .done ⟨min (n - 1) b.text.length, stored s (b.text.take (min (n - 1) b.text.length) ++ [0])⟩ := by
  obtain ⟨S, hS, rfl⟩ := exists_stores h
  rw [text_of_stored] at hlen ⊢
  have hcut := vsnprintf_eq_iff.2 (hS.take (s := s) hn hn' hlen (Nat.zero_le _))
  rw [List.length_take] at hcut
  rw [hcut, ← List.take_eq_take_min]

theorem vsnprintf_truncates_dec :
    vsnprintf (fun _ => 0) 2 (sampleFormat "%d%%") [.int (-7)] =
      .done ⟨1, stored (fun _ => 0) [ch '7', 0]⟩ := by
  have hsend : vprintf (sampleFormat "%d%%") [.int (-7)] = .done ⟨3, [ch '7', ch '-', ch '%']⟩ := by
    decide +kernel
  have hstores := (stores_iff (s := fun _ => 0) (n := intMax) (by decide) (Nat.le_refl _)
    (sends_of_vprintf hsend).2).2 (Or.inl (by decide +kernel))
  have htext := text_of_stored (fun _ => 0) [ch '7', ch '-', ch '%'] [0]
  have hcut := vsnprintf_truncates (fun _ => 0) (fun _ => 0) (sampleFormat "%d%%") [.int (-7)] 2 _
    (vsnprintf_eq_iff.2 hstores) (by rw [htext]; decide) (by decide) (by decide)
  rw [htext] at hcut
  exact hcut

end Truncation

end BrownieOS.LibC
