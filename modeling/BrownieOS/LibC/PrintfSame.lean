import BrownieOS.LibC.FormatPieces

/-!
# `vprintf` against `vsnprintf`

The two loops run side by side over the pieces of the format. While the pieces agree they
write the same text. At the first that does not, what they write differs at once, except
for `%i` of `INT_MIN`, after which `vsnprintf` is one dash ahead.
-/
namespace BrownieOS.LibC

open BrownieOS.Lib Word32 VSnprintf

variable {m s : Mem} {fuel n p p' : Nat} {ps ps' : List Arg} {out out' S : List Byte} {q : Piece}

/-- The loop of `vprintf`, having sent `out`, ends with `S` sent. -/
def Sends (m : Mem) (fuel p : Nat) (ps : List Arg) (out S : List Byte) : Prop :=
  ∃ f, loop (vprintfMore m) (vprintfTurn m) fuel ⟨p, ps, out.length, out⟩ = .done f ∧
    f.out = ⟨S.length, S⟩

/-- The loop of `vsnprintf`, having stored `out`, ends with `S` stored. -/
def Stores (s : Mem) (n : Nat) (m : Mem) (fuel p : Nat) (ps : List Arg) (out S : List Byte) :
    Prop :=
  ∃ f, loop (vsnprintfMore n m) (vsnprintfTurn n m) fuel (holding s p ps out) = .done f ∧
    f.out = Buffer.of s S

/-! ## The loop of `vprintf` -/

theorem sends_zero : ¬ Sends m 0 p ps out S := by
  rintro ⟨f, hf, -⟩
  cases hf

/-- A loop that ends was at the terminator, or read a piece and ends from there. -/
theorem Sends.cases (h : Sends m (fuel + 1) p ps out S) :
    m p = 0 ∧ S = out ∧ piecesFrom m (fuel + 1) p ps = [] ∨
      m p ≠ 0 ∧ ∃ q p' ps', readPiece m p ps = some (q, p', ps') ∧
        piecesFrom m (fuel + 1) p ps = q :: piecesFrom m fuel p' ps' ∧
        q.text.length ≤ intMax - out.length ∧ Sends m fuel p' ps' (out ++ q.text) S := by
  obtain ⟨f, hf, hS⟩ := h
  rcases loop_done hf with ⟨hm, rfl⟩ | ⟨hm, f₁, ht, h₁⟩
  · left
    have hp : m p = 0 := by simpa [vprintfMore] using hm
    refine ⟨hp, (congrArg Tty.sent hS).symm, ?_⟩
    rw [piecesFrom, if_pos hp]
  · right
    have hp : m p ≠ 0 := by simpa [vprintfMore] using hm
    obtain ⟨q, hq, hlen, hout⟩ := vprintfTurn_next ht
    refine ⟨hp, q, f₁.format, f₁.parameters, hq, ?_, hlen, f, ?_, hS⟩
    · rw [piecesFrom, if_neg hp]
      rw [show readPiece m p ps = _ from hq]
    · rw [List.length_append, ← h₁]
      rw [show (⟨out.length + q.text.length, out ++ q.text⟩ : Tty) = f₁.out from hout.symm]

/-- It sends the texts of the pieces. -/
theorem Sends.text (h : Sends m fuel p ps out S) : S = out ++ textOf (piecesFrom m fuel p ps) := by
  induction fuel generalizing p ps out with
  | zero => exact absurd h sends_zero
  | succ fuel ih =>
    rcases h.cases with ⟨-, rfl, hq⟩ | ⟨-, q, p', ps', -, hq, -, hs⟩
    · rw [hq]
      exact (List.append_nil _).symm
    · rw [hq, ih hs, List.append_assoc]
      rfl

theorem Sends.prefix_text (h : Sends m fuel p ps out S) : out <+: S :=
  ⟨_, h.text.symm⟩

/-! ## The loop of `vsnprintf` -/

theorem Buffer.of_injective (h : Buffer.of s out = Buffer.of s out') : out = out' :=
  stored_injective (congrArg Buffer.written h) (congrArg Buffer.s h)

theorem vsnprintfMore_eq (hn : 0 < n) (hn' : n ≤ intMax) :
    vsnprintfMore n m (holding s p ps out) = true ↔ m p ≠ 0 ∧ out.length < n - 1 := by
  have hw : wsub n 1 = n - 1 := wsub_of_le hn (by simp only [intMax] at hn'; omega)
  unfold vsnprintfMore
  rw [hw, decide_eq_true_eq]
  rfl

theorem stores_stop (hn : 0 < n) (hn' : n ≤ intMax) (h : m p = 0 ∨ n - 1 ≤ out.length) :
    Stores s n m (fuel + 1) p ps out S ↔ S = out := by
  have hm : vsnprintfMore n m (holding s p ps out) = false := by
    rw [Bool.eq_false_iff, Ne, vsnprintfMore_eq hn hn']
    rintro ⟨h₁, h₂⟩
    rcases h with h | h
    · exact h₁ h
    · omega
  unfold Stores
  rw [loop_of_not_more hm]
  constructor
  · rintro ⟨f, hf, hS⟩
    cases hf
    exact (Buffer.of_injective hS).symm
  · rintro rfl
    exact ⟨_, rfl, rfl⟩

theorem stores_next (hn : 0 < n) (hn' : n ≤ intMax) (hp : m p ≠ 0) (hroom : out.length < n - 1)
    (ht : vsnprintfTurn n m (holding s p ps out) = .next (holding s p' ps' out')) :
    Stores s n m (fuel + 1) p ps out S ↔ Stores s n m fuel p' ps' out' S := by
  unfold Stores
  rw [loop_of_next ((vsnprintfMore_eq hn hn').2 ⟨hp, hroom⟩) ht]

/-- What is stored stays stored. -/
theorem Stores.prefix_text (h : Stores s n m fuel p ps out S) : out <+: S := by
  obtain ⟨f, hf, hS⟩ := h
  have hinv : ∃ t, f.out = Buffer.of s (out ++ t) := by
    refine loop_invariant (P := fun f => ∃ t, f.out = Buffer.of s (out ++ t)) ?_ hf
      ⟨[], by rw [List.append_nil]; rfl⟩
    rintro f f₁ - ht ⟨t, hf⟩
    obtain ⟨t', ht', -⟩ := vsnprintfTurn_grew hf ht
    exact ⟨t ++ t', by rw [ht', List.append_assoc]⟩
  obtain ⟨t, ht⟩ := hinv
  exact ⟨t, Buffer.of_injective (ht.symm.trans hS)⟩

/-! ## Texts that part -/

theorem intMsb_toInt {i : BitVec 32} (h : i.msb = true) :
    i.toInt = -((4294967296 - i.toNat : Nat) : Int) := by
  have := i.isLt
  rw [BitVec.toInt_eq_msb_cond, if_pos h]
  omega

/-- The texts of a negative `%i`: ten digits, and the digits of its size with a dash. -/
theorem text_int {i : BitVec 32} (h : i.msb = true) :
    (Piece.int i).text = numeral 10 i.toNat ∧
      (Piece.int i).storedText = numeral 10 (4294967296 - i.toNat) ++ [ch '-'] := by
  have := i.isLt
  constructor
  · change untoa i.toNat (10 : Nat) = _
    exact untoa_numeral (by omega) (by omega) (by omega)
  · change ntoa i.toInt 10 = _
    rw [intMsb_toInt h]
    exact ntoa_neg (by omega) (by omega)

theorem length_text_int {i : BitVec 32} (h : i.msb = true) : (Piece.int i).text.length = 10 := by
  have := i.isLt
  have := BitVec.msb_eq_true_iff_two_mul_ge.1 h
  rw [(text_int h).1]
  exact length_numeral_ten (by omega) (by omega)

theorem length_storedText_int {i : BitVec 32} (h : i.msb = true) :
    (Piece.int i).storedText.length ≤ 11 := by
  have := i.isLt
  have := BitVec.msb_eq_true_iff_two_mul_ge.1 h
  rw [(text_int h).2, List.length_append, List.length_singleton]
  by_cases ha : 4294967296 - i.toNat < 10 ^ 9
  · have := length_numeral_lt ha
    omega
  · have := length_numeral_ten (n := 4294967296 - i.toNat) (by omega) (by omega)
    omega

/-- Only for the least `int` can the two texts be read from one and the same place. -/
theorem eq_intMin_of_prefixes {i : BitVec 32} {k : Nat} {R : List Byte} (h : i.msb = true)
    (hk : 10 ≤ k) (h₁ : (Piece.int i).text <+: R) (h₂ : (Piece.int i).storedText.take k <+: R) :
    i = intMin := by
  have hlt := i.isLt
  have hge := BitVec.msb_eq_true_iff_two_mul_ge.1 h
  have hlen := length_text_int h
  obtain ⟨ht, hst⟩ := text_int h
  rw [hst] at h₂
  rw [ht] at h₁ hlen
  generalize hm : 4294967296 - i.toNat = a at h₂ hst
  by_cases ha : a < 10 ^ 9
  · -- the dash stands among the ten digits
    have hshort := length_numeral_lt ha
    rw [List.take_of_length_le (by rw [List.length_append, List.length_singleton]; omega)] at h₂
    have hin : numeral 10 a ++ [ch '-'] <+: numeral 10 i.toNat :=
      List.prefix_of_prefix_length_le h₂ h₁
        (by rw [List.length_append, List.length_singleton]; omega)
    have hmem : ch '-' ∈ numeral 10 i.toNat := hin.subset (by simp)
    exact absurd rfl (mem_numeral (by omega) (by omega) hmem).1
  · -- ten digits against ten digits
    have hten := length_numeral_ten (n := a) (by omega) (by omega)
    have hpre : numeral 10 a <+: R :=
      (List.prefix_take_iff.2 ⟨List.prefix_append _ _, by omega⟩).trans h₂
    have hsame : numeral 10 a = numeral 10 i.toNat :=
      (List.prefix_of_prefix_length_le hpre h₁ (by omega)).eq_of_length (by omega)
    have := numeral_inj (by omega) (by omega) hsame
    apply BitVec.eq_of_toNat_eq
    show i.toNat = 2147483648
    omega

/-- What `vprintf` writes for a piece `vsnprintf` reads otherwise starts with a digit. -/
theorem text_of_not_agrees (hq : ¬ q.agrees) :
    ∃ c t, q.text = c :: t ∧ c ≠ ch '-' ∧ c ≠ ch '%' := by
  have digits : ∀ base n, 2 ≤ base → base ≤ 36 →
      ∃ c t, numeral base n = c :: t ∧ c ≠ ch '-' ∧ c ≠ ch '%' := by
    intro base n hb hb'
    obtain ⟨c, t, hct⟩ := List.exists_cons_of_ne_nil (numeral_ne_nil base n)
    have := mem_numeral hb hb' (c := c) (n := n) (by rw [hct]; exact List.mem_cons_self)
    exact ⟨c, t, hct, this.1, this.2.1⟩
  cases q with
  | int i =>
    have hi : i.msb = true := by simpa [Piece.agrees] using hq
    rw [(text_int hi).1]
    exact digits 10 _ (by omega) (by omega)
  | uint i =>
    have : (Piece.uint i).text = numeral 10 i.toNat := by
      change untoa i.toNat (10 : Nat) = _
      exact untoa_numeral (by omega) (by omega) (by omega)
    rw [this]
    exact digits 10 _ (by omega) (by omega)
  | longUint i =>
    have : (Piece.longUint i).text = numeral 10 i.toNat := by
      change untoa i.toNat (10 : Nat) = _
      exact untoa_numeral (by omega) (by omega) (by omega)
    rw [this]
    exact digits 10 _ (by omega) (by omega)
  | longHex i =>
    have : (Piece.longHex i).text = numeral 16 i.toNat := by
      change untoa i.toNat (16 : Nat) = _
      exact untoa_numeral (by omega) (by omega) (by omega)
    rw [this]
    exact digits 16 _ (by omega) (by omega)
  | longDec i =>
    cases hmsb : i.msb with
    | false =>
      have : (Piece.longDec i).text = numeral 10 i.toNat := by
        change ntoa i.toInt (10 : Nat) = _
        rw [BitVec.toInt_eq_toNat_of_msb hmsb]
        exact ntoa_natCast (by omega) (by omega) (by omega)
      rw [this]
      exact digits 10 _ (by omega) (by omega)
    | true =>
      have hlt := i.isLt
      have hge := BitVec.msb_eq_true_iff_two_mul_ge.1 hmsb
      have : (Piece.longDec i).text = numeral 10 (18446744073709551616 - i.toNat) ++ [ch '-'] := by
        have : i.toInt = -((18446744073709551616 - i.toNat : Nat) : Int) := by
          rw [BitVec.toInt_eq_msb_cond, if_pos hmsb]
          omega
        change ntoa i.toInt 10 = _
        rw [this]
        exact ntoa_neg (by omega) (by omega)
      obtain ⟨c, t, hct, hc⟩ := digits 10 (18446744073709551616 - i.toNat) (by omega) (by omega)
      exact ⟨c, t ++ [ch '-'], by rw [this, hct]; rfl, hc⟩
  | _ => exact absurd rfl hq

/-- Two texts that continue one from the same place start with the same character. -/
theorem head_eq_of_prefixes {a b : Byte} {t u : List Byte} (h₁ : out ++ a :: t <+: S)
    (h₂ : out ++ b :: u <+: S) : a = b := by
  obtain ⟨r, hr⟩ := h₁
  obtain ⟨r', hr'⟩ := h₂
  have := hr.trans hr'.symm
  rw [List.append_assoc, List.append_assoc, List.append_cancel_left_eq] at this
  exact (List.cons.inj this).1

/-- A text that reads the same one place on is one character over and over. -/
theorem forall_eq_of_prefix_cons {a : Byte} {t : List Byte} (h : t <+: a :: t) :
    ∀ c ∈ t, c = a := by
  induction t with
  | nil => exact fun c hc => absurd hc List.not_mem_nil
  | cons b t ih =>
    obtain ⟨rfl, ht⟩ := List.cons_prefix_cons.1 h
    intro c hc
    rcases List.mem_cons.1 hc with rfl | hc
    · rfl
    · exact ih ht c hc

/-! ## One dash ahead -/

theorem dashes_cons {qs : List Piece} :
    Dashes (q :: qs) ↔ (∀ c ∈ q.text, c = ch '-') ∧ Dashes qs := by
  simp [Dashes]

theorem dashes_of_textOf_nil {qs : List Piece} (h : textOf qs = []) : Dashes qs := by
  intro q hq c hc
  have : c ∈ textOf qs := List.mem_flatMap.2 ⟨q, hq, hc⟩
  rw [h] at this
  exact absurd this List.not_mem_nil

theorem dashes_iff {qs : List Piece} : Dashes qs ↔ ∀ c ∈ textOf qs, c = ch '-' := by
  constructor
  · intro h c hc
    obtain ⟨q, hq, hcq⟩ := List.mem_flatMap.1 hc
    exact h q hq c hcq
  · intro h q hq c hc
    exact h c (List.mem_flatMap.2 ⟨q, hq, hc⟩)

theorem storedText_eq_or (q : Piece) : q.agrees ∨ ∃ c t, q.text = c :: t ∧ c ≠ ch '-' ∧ c ≠ ch '%' := by
  by_cases hq : q.agrees
  · exact Or.inl hq
  · exact Or.inr (text_of_not_agrees hq)

theorem Piece.known_of_agrees (hq : q.agrees) : q.known := by
  cases q with
  | uint | longDec | longUint | longHex => cases hq
  | _ => rfl

/-- A turn that writes the same text `t` on both sides, one dash ahead in the buffer. -/
theorem stores_ahead_text {t : List Byte} (hn0 : 0 < n) (hn : n ≤ intMax)
    (hS : S.length < n) (hsend : Sends m fuel p ps (out ++ t) S) (hroom : out.length + 1 < n - 1)
    (ih : (out ++ t).length + 1 ≤ n - 1 →
      (Stores s n m fuel p ps ((out ++ t) ++ [ch '-']) S ↔
        n = S.length + 1 ∧ Dashes (piecesFrom m fuel p ps))) :
    Stores s n m fuel p ps (out ++ [ch '-'] ++ t.take (n - 1 - (out.length + 1))) S ↔
      n = S.length + 1 ∧ (∀ c ∈ t, c = ch '-') ∧ Dashes (piecesFrom m fuel p ps) := by
  have hle := hsend.prefix_text.length_le
  rw [List.length_append] at hle ih
  by_cases hd : ∀ c ∈ t, c = ch '-'
  · have hrep : t = List.replicate t.length (ch '-') := List.eq_replicate_iff.2 ⟨rfl, hd⟩
    by_cases hfit : out.length + t.length + 1 ≤ n - 1
    · -- the dash slides along
      have hslide : out ++ [ch '-'] ++ t.take (n - 1 - (out.length + 1)) = out ++ t ++ [ch '-'] := by
        rw [List.take_of_length_le (by omega), hrep, List.append_assoc, List.append_assoc]
        congr 1
        exact (List.replicate_succ (n := t.length)).symm.trans List.replicate_succ'
      rw [hslide, ih hfit]
      exact ⟨fun h => ⟨h.1, hd, h.2⟩, fun h => ⟨h.1, h.2.2⟩⟩
    · -- the dash falls off the end
      have hcut : out ++ [ch '-'] ++ t.take (n - 1 - (out.length + 1)) = out ++ t := by
        rw [List.append_assoc]
        congr 1
        rw [hrep, List.take_replicate]
        have : t.length = min (n - 1 - (out.length + 1)) t.length + 1 := by omega
        conv_rhs => rw [this]
        rfl
      have hwhole : S = out ++ t :=
        (hsend.prefix_text.eq_of_length (by rw [List.length_append]; omega)).symm
      rw [hcut]
      cases fuel with
      | zero => exact absurd hsend sends_zero
      | succ fuel =>
        rw [stores_stop hn0 hn (Or.inr (by rw [List.length_append]; omega))]
        have hnil : textOf (piecesFrom m (fuel + 1) p ps) = [] :=
          List.append_right_eq_self.1 (hsend.text.symm.trans hwhole)
        refine ⟨fun _ => ⟨?_, hd, dashes_of_textOf_nil hnil⟩, fun _ => hwhole⟩
        rw [hwhole, List.length_append]
        omega
  · -- a character that is no dash is sent where one is stored
    constructor
    · intro hst
      refine absurd (forall_eq_of_prefix_cons (List.IsPrefix.trans ?_
        (List.cons_prefix_cons.2 ⟨rfl, List.take_prefix (n - 1 - (out.length + 1)) t⟩))) hd
      have h₁ := hsend.prefix_text
      have h₂ := hst.prefix_text
      rw [List.append_assoc] at h₂
      have := List.prefix_of_prefix_length_le h₁ h₂ (by
        simp only [List.length_append, List.length_cons, List.length_take]
        omega)
      exact (List.prefix_append_right_inj out).1 this
    · rintro ⟨-, h, -⟩
      exact absurd h hd

/-- With one dash too many stored, the texts come out the same just when only dashes are to
come and the last of them does not fit. -/
theorem stores_ahead (hS : S.length < n) (hn : n ≤ intMax)
    (h : Sends m fuel p ps out S) (hroom : out.length + 1 ≤ n - 1) :
    Stores s n m fuel p ps (out ++ [ch '-']) S ↔
      n = S.length + 1 ∧ Dashes (piecesFrom m fuel p ps) := by
  have hn0 : 0 < n := by omega
  induction fuel generalizing p ps out with
  | zero => exact absurd h sends_zero
  | succ fuel ih =>
    have hlen : (out ++ [ch '-']).length = out.length + 1 := by simp
    have htext := h.text
    have hSlen := congrArg List.length htext
    rw [List.length_append] at hSlen
    rcases h.cases with ⟨hp, rfl, hqs⟩ | ⟨hp, q, p', ps', hread, hqs, hrem, hsend⟩
    · -- the format is over, and the dash is one too many
      rw [stores_stop hn0 hn (Or.inl hp)]
      constructor
      · intro he
        have := congrArg List.length he
        omega
      · rintro ⟨he, -⟩
        omega
    · by_cases hfull : n - 1 ≤ out.length + 1
      · -- the buffer is full: what is left to send must be that dash
        rw [stores_stop hn0 hn (Or.inr (by omega)), dashes_iff]
        constructor
        · intro he
          have hrest : textOf (piecesFrom m (fuel + 1) p ps) = [ch '-'] :=
            List.append_cancel_left (htext.symm.trans he)
          refine ⟨by rw [he]; omega, ?_⟩
          rw [hrest]
          exact fun c hc => List.mem_singleton.1 hc
        · rintro ⟨he, hd⟩
          have hone : textOf (piecesFrom m (fuel + 1) p ps) = List.replicate 1 (ch '-') :=
            List.eq_replicate_iff.2 ⟨by omega, hd⟩
          rw [htext, hone]
          rfl
      · rw [hqs, dashes_cons]
        rcases storedText_eq_or q with hq | ⟨c, t, hct, hc, -⟩
        · -- both write the text of the piece
          have hle := hsend.prefix_text.length_le
          rw [List.length_append] at hle
          have hturn := vsnprintfTurn_of_known (s := s) (f := holding s p ps (out ++ [ch '-']))
            hn0 hn rfl (by omega) hread (Piece.known_of_agrees hq) (by
              rw [Piece.storedText_of_agrees hq]
              change _ ≤ intMax - (out ++ [ch '-']).length
              omega)
          rw [stores_next hn0 hn hp (by omega) hturn, Piece.storedText_of_agrees hq, hlen]
          exact stores_ahead_text hn0 hn hS hsend (by omega) fun hroom' => ih hsend hroom'
        · -- a digit is sent where the dash is stored
          constructor
          · intro hst
            have h₁ := hsend.prefix_text
            rw [hct] at h₁
            exact absurd (head_eq_of_prefixes h₁ hst.prefix_text) hc
          · rintro ⟨-, hd, -⟩
            exact absurd (hd c (by rw [hct]; exact List.mem_cons_self)) hc

/-! ## Side by side -/

theorem lostSign_cons_of_agrees {qs : List Piece} (hq : q.agrees) :
    LostSign (q :: qs) ↔ LostSign qs := by
  constructor
  · rintro ⟨pre, post, heq, hpre, hpost⟩
    cases pre with
    | nil =>
      cases heq
      cases hq
    | cons a pre =>
      obtain ⟨rfl, rfl⟩ := List.cons.inj heq
      exact ⟨pre, post, rfl, fun q hq => hpre q (List.mem_cons_of_mem _ hq), hpost⟩
  · rintro ⟨pre, post, rfl, hpre, hpost⟩
    refine ⟨q :: pre, post, rfl, ?_, hpost⟩
    intro a ha
    rcases List.mem_cons.1 ha with rfl | ha
    · exact hq
    · exact hpre a ha

theorem lostSign_cons_of_not_agrees {qs : List Piece} (hq : ¬ q.agrees) :
    LostSign (q :: qs) ↔ q = .int intMin ∧ Dashes qs := by
  constructor
  · rintro ⟨pre, post, heq, hpre, hpost⟩
    cases pre with
    | nil =>
      cases heq
      exact ⟨rfl, hpost⟩
    | cons a pre =>
      obtain ⟨rfl, rfl⟩ := List.cons.inj heq
      exact absurd (hpre q List.mem_cons_self) hq
  · rintro ⟨rfl, hd⟩
    exact ⟨[], qs, rfl, fun q hq => absurd hq List.not_mem_nil, hd⟩

theorem forall_agrees_cons {qs : List Piece} :
    (∀ a ∈ q :: qs, a.agrees) ↔ q.agrees ∧ ∀ a ∈ qs, a.agrees := List.forall_mem_cons

theorem stores_of_sends_full (hn0 : 0 < n) (hn : n ≤ intMax) (h : Sends m fuel p ps S S)
    (hfull : n - 1 ≤ S.length) : Stores s n m fuel p ps S S := by
  cases fuel with
  | zero => exact absurd h sends_zero
  | succ fuel => exact (stores_stop hn0 hn (Or.inr hfull)).2 rfl

/-- The turn on a negative `%i`: the same ten digits for `INT_MIN` only, and then a dash. -/
theorem stores_int {i : BitVec 32} (hS : S.length < n) (hn : n ≤ intMax) (hi : i.msb = true)
    (hsend : Sends m fuel p ps (out ++ (Piece.int i).text) S) :
    Stores s n m fuel p ps (out ++ (Piece.int i).storedText.take (n - 1 - out.length)) S ↔
      (i = intMin ∧ Dashes (piecesFrom m fuel p ps)) ∧ n = S.length + 1 := by
  have hle := hsend.prefix_text.length_le
  rw [List.length_append, length_text_int hi] at hle
  by_cases hmin : i = intMin
  · subst hmin
    have htext : (Piece.int intMin).storedText = (Piece.int intMin).text ++ [ch '-'] := by decide
    have hlen : (out ++ (Piece.int intMin).text).length = out.length + 10 := by
      rw [List.length_append, length_text_int hi]
    rw [htext]
    by_cases hroom : out.length + 10 + 1 ≤ n - 1
    · have hfit : ((Piece.int intMin).text ++ [ch '-']).length ≤ n - 1 - out.length := by
        rw [List.length_append, length_text_int hi, List.length_singleton]
        omega
      rw [List.take_of_length_le hfit, ← List.append_assoc, stores_ahead hS hn hsend (by omega)]
      exact ⟨fun h => ⟨⟨rfl, h.2⟩, h.1⟩, fun h => ⟨h.2, h.1.2⟩⟩
    · -- the buffer ends before the dash
      have hwhole : out ++ (Piece.int intMin).text = S :=
        hsend.prefix_text.eq_of_length (by omega)
      have hcut : ((Piece.int intMin).text ++ [ch '-']).take (n - 1 - out.length) =
          (Piece.int intMin).text := by
        rw [show n - 1 - out.length = (Piece.int intMin).text.length by
          rw [length_text_int hi]; omega]
        exact List.take_left' rfl
      rw [hcut, hwhole]
      rw [hwhole] at hsend hlen
      have hnil : textOf (piecesFrom m fuel p ps) = [] :=
        List.append_right_eq_self.1 hsend.text.symm
      exact ⟨fun _ => ⟨⟨rfl, dashes_of_textOf_nil hnil⟩, by omega⟩,
        fun _ => stores_of_sends_full (by omega) hn hsend (by omega)⟩
  · constructor
    · intro hst
      obtain ⟨r, hr⟩ := hsend.prefix_text
      obtain ⟨r', hr'⟩ := hst.prefix_text
      rw [List.append_assoc] at hr hr'
      have hrr := List.append_cancel_left (hr'.trans hr.symm)
      exact absurd (eq_intMin_of_prefixes hi (by omega) ⟨r, rfl⟩ ⟨r', hrr⟩) hmin
    · rintro ⟨⟨h, -⟩, -⟩
      exact absurd h hmin

/-- The loop of `vsnprintf` stores what the loop of `vprintf` sends just when every piece
to come agrees, or a dash is lost. -/
theorem stores_iff (hS : S.length < n) (hn : n ≤ intMax) (h : Sends m fuel p ps out S) :
    Stores s n m fuel p ps out S ↔
      (∀ q ∈ piecesFrom m fuel p ps, q.agrees) ∨
        LostSign (piecesFrom m fuel p ps) ∧ n = S.length + 1 := by
  have hn0 : 0 < n := by omega
  induction fuel generalizing p ps out with
  | zero => exact absurd h sends_zero
  | succ fuel ih =>
    rcases h.cases with ⟨hp, rfl, hqs⟩ | ⟨hp, q, p', ps', hread, hqs, hrem, hsend⟩
    · rw [stores_stop hn0 hn (Or.inl hp), hqs]
      exact ⟨fun _ => Or.inl fun q hq => absurd hq List.not_mem_nil, fun _ => rfl⟩
    have hle := hsend.prefix_text.length_le
    rw [List.length_append] at hle
    by_cases hfull : n - 1 ≤ out.length
    · -- nothing more is sent, so nothing more disagrees
      have hwhole : out = S := h.prefix_text.eq_of_length (by omega)
      subst hwhole
      have hnil : textOf (piecesFrom m (fuel + 1) p ps) = [] :=
        List.append_right_eq_self.1 h.text.symm
      refine ⟨fun _ => Or.inl fun a ha => ?_, fun _ => (stores_stop hn0 hn (Or.inr hfull)).2 rfl⟩
      by_contra hag
      obtain ⟨c, t, hct, -⟩ := text_of_not_agrees hag
      have hmem : c ∈ textOf (piecesFrom m (fuel + 1) p ps) :=
        List.mem_flatMap.2 ⟨a, ha, by rw [hct]; exact List.mem_cons_self⟩
      rw [hnil] at hmem
      exact absurd hmem List.not_mem_nil
    · rw [hqs, forall_agrees_cons]
      by_cases hq : q.agrees
      · -- the same text on both sides
        have hturn := vsnprintfTurn_of_known (s := s) (f := holding s p ps out) hn0 hn rfl
          (by omega) hread (Piece.known_of_agrees hq) (by
            rw [Piece.storedText_of_agrees hq]
            exact hrem)
        rw [stores_next hn0 hn hp (by omega) hturn, Piece.storedText_of_agrees hq,
          List.take_of_length_le (by omega), lostSign_cons_of_agrees hq]
        exact (ih hsend).trans (or_congr_left ⟨fun h => ⟨hq, h⟩, fun h => h.2⟩)
      · rw [lostSign_cons_of_not_agrees hq]
        have hno : ¬ (q.agrees ∧ ∀ a ∈ piecesFrom m fuel p' ps', a.agrees) := fun h => hq h.1
        rw [or_iff_right hno]
        cases hk : q.known with
        | false =>
          -- a percent sign is stored where a digit is sent
          obtain ⟨c, t, hct, -, hc⟩ := text_of_not_agrees hq
          obtain ⟨p₁, ps₁, hturn⟩ := vsnprintfTurn_of_unknown (n := n) (s := s)
            (f := holding s p ps out) rfl hread hk
            (by change 1 ≤ intMax - out.length; omega)
          rw [stores_next hn0 hn hp (by omega) hturn]
          constructor
          · intro hst
            have h₁ := hsend.prefix_text
            rw [hct] at h₁
            exact absurd (head_eq_of_prefixes h₁ hst.prefix_text) hc
          · rintro ⟨⟨rfl, -⟩, -⟩
            cases hk
        | true =>
          cases q with
          | int i =>
            have hi : i.msb = true := by simpa [Piece.agrees] using hq
            have hten := length_text_int hi
            have hturn := vsnprintfTurn_of_known (s := s) (f := holding s p ps out) hn0 hn rfl
              (by omega) hread hk (by
                have := length_storedText_int hi
                change _ ≤ intMax - out.length
                omega)
            rw [stores_next hn0 hn hp (by omega) hturn, stores_int hS hn hi hsend, Piece.int.injEq]
          | uint | longDec | longUint | longHex => cases hk
          | _ => exact absurd rfl hq

/-! ## The formatters -/

theorem readPiece_parameters (h : readPiece m p ps = some (q, p', ps')) :
    ps'.length < ps.length + q.text.length := by
  have hint : ∀ (piece : BitVec 32 → Piece) format,
      readInt ps piece format = some (q, p', ps') → ps'.length < ps.length + q.text.length := by
    intro piece format h
    obtain ⟨v, rfl, -, -⟩ := readInt_eq_some h
    rw [List.length_cons]
    omega
  have hlong : ∀ (piece : BitVec 64 → Piece) format,
      readLongLong ps piece format = some (q, p', ps') → ps'.length < ps.length + q.text.length := by
    intro piece format h
    unfold readLongLong at h
    split at h
    · cases h
      rw [List.length_cons]
      omega
    · cases h
  have hstring : ∀ format,
      readString ps format = some (q, p', ps') → ps'.length < ps.length + q.text.length := by
    intro format h
    obtain ⟨str, rfl, -, -⟩ := readString_eq_some h
    rw [List.length_cons]
    omega
  unfold readPiece at h
  dsimp only at h
  split_ifs at h
  all_goals first
    | exact hint _ _ h
    | exact hlong _ _ h
    | exact hstring _ h
    | (cases h; exact Nat.lt_succ_self _)

/-- Every turn uses up room or a parameter, so `vprintf` ends. -/
theorem vprintf_ends (m : Mem) (parameters : List Arg) : vprintf m parameters ≠ .unfinished := by
  have hloop : loop (vprintfMore m) (vprintfTurn m) (formatFuel parameters)
      ⟨0, parameters, 0, []⟩ ≠ .unfinished := by
    refine loop_ends (μ := fun f => f.remaining + f.parameters.length) ?_ (Nat.lt_succ_self _)
    intro f f' hm ht
    obtain ⟨q, hq, hrem, hout⟩ := vprintfTurn_next ht
    have := readPiece_parameters hq
    simp only [VPrintf.remaining, hout] at hrem ⊢
    omega
  unfold vprintf
  cases he : loop (vprintfMore m) (vprintfTurn m) (formatFuel parameters) ⟨0, parameters, 0, []⟩
  case unfinished => exact absurd he hloop
  all_goals
    intro hunfinished
    cases hunfinished

theorem Buffer.exists_of (b : Buffer) : ∃ s out, b = Buffer.of s out := by
  refine ⟨b.s, (List.range b.written).map b.s, ?_⟩
  have hs : stored b.s ((List.range b.written).map b.s) = b.s := by
    funext i
    unfold stored
    by_cases h : i < b.written
    · simp [h]
    · rw [List.getElem?_eq_none (by simpa using h)]
      rfl
  unfold Buffer.of
  rw [hs, List.length_map, List.length_range]

/-- And so does `vsnprintf`, whatever the size of the buffer. -/
theorem vsnprintf_ends (s : Mem) (n : Nat) (m : Mem) (parameters : List Arg) :
    vsnprintf s n m parameters ≠ .unfinished := by
  have hloop : loop (vsnprintfMore n m) (vsnprintfTurn n m) (formatFuel parameters)
      ⟨0, parameters, 0, s⟩ ≠ .unfinished := by
    refine loop_ends (μ := fun f => f.remaining + f.parameters.length) ?_ (Nat.lt_succ_self _)
    intro f f' hm ht
    obtain ⟨s, out, hf⟩ := f.out.exists_of
    obtain ⟨t, ht', hrem, hps⟩ := vsnprintfTurn_grew hf ht
    simp only [VSnprintf.remaining, hf, ht', Buffer.of, List.length_append] at hrem ⊢
    omega
  unfold vsnprintf
  cases he : loop (vsnprintfMore n m) (vsnprintfTurn n m) (formatFuel parameters)
    ⟨0, parameters, 0, s⟩
  case unfinished => exact absurd he hloop
  all_goals
    intro hunfinished
    cases hunfinished

theorem sends_of_vprintf {parameters : List Arg} {t : Tty} (h : vprintf m parameters = .done t) :
    t.written = t.sent.length ∧ Sends m (formatFuel parameters) 0 parameters [] t.sent := by
  obtain ⟨f, hf, rfl⟩ := Ended.map_eq_done.1 h
  have hw : f.out.written = f.out.sent.length := by
    refine loop_invariant (P := fun f : VPrintf => f.out.written = f.out.sent.length) ?_ hf rfl
    intro f f' hm ht hP
    obtain ⟨q, -, -, hout⟩ := vprintfTurn_next ht
    rw [hout, List.length_append, hP]
  exact ⟨hw, f, hf, by rw [← hw]⟩

theorem vsnprintf_eq_iff {parameters : List Arg} :
    vsnprintf s n m parameters = .done ⟨S.length, stored s (S ++ [0])⟩ ↔
      Stores s n m (formatFuel parameters) 0 parameters [] S := by
  constructor
  · intro h
    obtain ⟨f, hf, hS⟩ := vsnprintf_eq_done.1 h
    have hinv : ∃ out, f.out = Buffer.of s out := by
      refine loop_invariant (P := fun f => ∃ out, f.out = Buffer.of s out) ?_ hf ⟨[], rfl⟩
      rintro f f₁ - ht ⟨out, hf⟩
      obtain ⟨t, ht', -⟩ := vsnprintfTurn_grew hf ht
      exact ⟨out ++ t, ht'⟩
    obtain ⟨out, hout⟩ := hinv
    have hS : (⟨out.length, stored s (out ++ [0])⟩ : Buffer) = ⟨S.length, stored s (S ++ [0])⟩ := by
      rw [← Buffer.terminate_of, ← hout, hS]
    have hlen := congrArg Buffer.written hS
    have hsame : out ++ [0] = S ++ [0] := by
      refine stored_injective ?_ (congrArg Buffer.s hS)
      rw [List.length_append, List.length_append, show out.length = S.length from hlen]
    rw [List.append_cancel_right_eq] at hsame
    exact ⟨f, hf, by rw [hout, hsame]⟩
  · rintro ⟨f, hf, hS⟩
    exact vsnprintf_eq_done.2 ⟨f, hf, (congrArg Buffer.terminate hS).trans (Buffer.terminate_of s S)⟩

/-- When `vprintf` returns a count below `n`, `vsnprintf` returns it too and stores the text
that was sent, just when the pieces of the format have the same text for both. -/
theorem vsnprintf_same_iff (m : Mem) (parameters : List Arg) (s : Mem) (n : Nat) (t : Tty)
    (ht : vprintf m parameters = .done t) (hw : t.written < n) (hn : n ≤ intMax) :
    vsnprintf s n m parameters = .done ⟨t.written, stored s (t.sent ++ [0])⟩ ↔
      SameText n (pieces m parameters) := by
  obtain ⟨hlen, hsend⟩ := sends_of_vprintf ht
  rw [hlen] at hw ⊢
  rw [vsnprintf_eq_iff, stores_iff hw hn hsend]
  unfold SameText pieces
  rw [← List.nil_append (textOf _), ← hsend.text]

def sampleFormat (text : String) : Mem := fun i => (text.toList.map ch).getD i 0

theorem vsnprintf_same_iff_dec :
    vprintf (sampleFormat "%d%%") [.int (-7)] = .done ⟨3, [ch '7', ch '-', ch '%']⟩ ∧
      vsnprintf (fun _ => 0) 8 (sampleFormat "%d%%") [.int (-7)] =
        .done ⟨3, stored (fun _ => 0) [ch '7', ch '-', ch '%', 0]⟩ :=
  ⟨by decide +kernel,
    (vsnprintf_same_iff (sampleFormat "%d%%") [.int (-7)] (fun _ => 0) 8
      ⟨3, [ch '7', ch '-', ch '%']⟩ (by decide +kernel) (by decide) (by decide)).2
      (Or.inl (by decide +kernel))⟩

/-- `%u` is a directive of `vprintf` only. -/
theorem vsnprintf_not_same : ¬ ∀ (m : Mem) (parameters : List Arg) (s : Mem) (n : Nat) (t : Tty),
    vprintf m parameters = .done t → t.written < n → n ≤ intMax →
      vsnprintf s n m parameters = .done ⟨t.written, stored s (t.sent ++ [0])⟩ := by
  intro h
  have hsame := h (sampleFormat "%u") [.int 5] (fun _ => 0) 2 ⟨1, [ch '5']⟩ (by decide +kernel)
    (by decide) (by decide)
  have hfirst : (vsnprintf (fun _ => 0) 2 (sampleFormat "%u") [.int 5]).map (fun b => b.s 0) =
      .done (ch '%') := by decide +kernel
  rw [hsame] at hfirst
  revert hfirst
  decide

end BrownieOS.LibC
