import BrownieOS.Lib.ByteMemory
import Mathlib.Data.List.Basic

/-!
# The text terminal of `drivers/tty.c`

Cells are stored one by one, as the code does, and the indices stored to are kept. The
purpose of the component is stated apart from it: a text of unbounded rows, of which
the screen shows the last 25. `terminal_write` refines that text.
-/
namespace BrownieOS.Drivers

open BrownieOS.Lib

abbrev Cell := BitVec 16

abbrev vgaColorBlack : BitVec 8 := 0
abbrev vgaColorLightGreen : BitVec 8 := 10

def vgaEntryColor (fg bg : BitVec 8) : BitVec 8 := fg ||| bg <<< 4

def vgaEntry (uc color : BitVec 8) : Cell := uc.zeroExtend 16 ||| color.zeroExtend 16 <<< 8

abbrev vgaWidth : Nat := 80
abbrev vgaHeight : Nat := 25

abbrev space : Byte := 0x20
abbrev newline : Byte := 0x0A

/-- The statics of the driver, and every index of `terminal_buffer` stored to so far. -/
structure Terminal where
  row : Nat
  column : Nat
  color : BitVec 8
  buffer : Nat → Cell
  stored : List Nat

/-- `terminal_buffer[index] = entry`. -/
def Terminal.store (t : Terminal) (index : Nat) (entry : Cell) : Terminal :=
  { t with buffer := Function.update t.buffer index entry, stored := index :: t.stored }

/-- A loop over the first `n` columns that stores at `base + x`. -/
def storeRow (t : Terminal) (base : Nat) (entry : Terminal → Nat → Cell) : Nat → Terminal
  | 0 => t
  | x + 1 =>
    let t := storeRow t base entry x
    t.store (base + x) (entry t x)

def blankEntry (t : Terminal) (_ : Nat) : Cell := vgaEntry space t.color

/-- The outer loop of `terminal_initialize`, over the first `n` rows. -/
def initializeRows (t : Terminal) : Nat → Terminal
  | 0 => t
  | y + 1 => storeRow (initializeRows t y) (y * vgaWidth) blankEntry vgaWidth

/-- `terminal_initialize`, from whatever the statics and the screen were. -/
def terminalInitialize (t : Terminal) : Terminal :=
  initializeRows { t with
    row := 0, column := 0, color := vgaEntryColor vgaColorLightGreen vgaColorBlack } vgaHeight

def terminalPutentryat (t : Terminal) (c color : BitVec 8) (x y : Nat) : Terminal :=
  t.store (y * vgaWidth + x) (vgaEntry c color)

def terminalDeleteLastLine (t : Terminal) : Terminal :=
  storeRow t ((vgaHeight - 1) * vgaWidth) blankEntry vgaWidth

/-- The outer loop of `terminal_scroll`, for `y` from 1 to `n`. -/
def scrollRows (t : Terminal) : Nat → Terminal
  | 0 => t
  | y + 1 => storeRow (scrollRows t y) ((y + 1) * vgaWidth - vgaWidth)
      (fun t x => t.buffer ((y + 1) * vgaWidth + x)) vgaWidth

def terminalScroll (t : Terminal) : Terminal := terminalDeleteLastLine (scrollRows t (vgaHeight - 1))

/-- `if (++terminal_row == VGA_HEIGHT)` and its body. -/
def terminalNextRow (t : Terminal) : Terminal :=
  let t := { t with row := t.row + 1 }
  if t.row = vgaHeight then { terminalScroll t with row := vgaHeight - 1 } else t

def terminalPutchar (t : Terminal) (c : Byte) : Terminal :=
  if c = newline then
    { terminalNextRow t with column := 0 }
  else
    let t := terminalPutentryat t c t.color t.column t.row
    let t := { t with column := t.column + 1 }
    if t.column = vgaWidth then terminalNextRow { t with column := 0 } else t

/-- `terminal_write`. -/
def terminalWrite (t : Terminal) : List Byte → Terminal
  | [] => t
  | c :: data => terminalWrite (terminalPutchar t c) data

/-! ## The text -/

/-- The rows laid out so far: the finished ones and the one the cursor is on. -/
structure Text where
  done : List (List Byte)
  cur : List Byte
  deriving DecidableEq

namespace Text

def empty : Text := ⟨[], []⟩

def rows (text : Text) : List (List Byte) := text.done ++ [text.cur]

def newRow (text : Text) : Text := ⟨text.rows, []⟩

/-- A newline starts a row, and so does the 80th character of one. -/
def put (text : Text) (c : Byte) : Text :=
  if c = newline then text.newRow
  else
    let text := { text with cur := text.cur ++ [c] }
    if text.cur.length = vgaWidth then text.newRow else text

def layOut (text : Text) (data : List Byte) : Text := data.foldl put text

/-- The last 25 rows, or all of them. -/
def shown (text : Text) : List (List Byte) := text.rows.drop (text.rows.length - vgaHeight)

/-- The character at a place of the screen; unwritten places are blank. -/
def shownAt (text : Text) (y x : Nat) : Byte := ((text.shown[y]?).bind fun row => row[x]?).getD space

end Text

/-! ## The loops -/

section Loops

variable {t : Terminal} {base : Nat} {entry : Terminal → Nat → Cell}

/-- The loop touches nothing but the buffer. -/
theorem storeRow_statics (t : Terminal) (base : Nat) (entry : Terminal → Nat → Cell) (n : Nat) :
    (storeRow t base entry n).row = t.row ∧ (storeRow t base entry n).column = t.column ∧
      (storeRow t base entry n).color = t.color := by
  induction n with
  | zero => exact ⟨rfl, rfl, rfl⟩
  | succ n ih => exact ih

/-- What is stored depends only on cells the loop has not reached. -/
theorem storeRow_buffer (value : Nat → Cell) : ∀ n,
    (∀ k < n, entry (storeRow t base entry k) k = value k) → ∀ i,
    (storeRow t base entry n).buffer i =
      if base ≤ i ∧ i < base + n then value (i - base) else t.buffer i := by
  intro n
  induction n with
  | zero =>
    intro _ i
    rw [if_neg (by omega)]
    rfl
  | succ n ih =>
    intro hentry i
    simp only [storeRow, Terminal.store, Function.update_apply]
    by_cases hi : i = base + n
    · rw [if_pos hi, if_pos (by omega), hentry n (Nat.lt_succ_self n), hi, Nat.add_sub_cancel_left]
    · rw [if_neg hi, ih (fun k hk => hentry k (by omega)) i]
      by_cases hin : base ≤ i ∧ i < base + n
      · rw [if_pos hin, if_pos (by omega)]
      · rw [if_neg hin, if_neg (by omega)]

theorem storeRow_stored : ∀ n, (∀ i ∈ t.stored, i < 2000) → base + n ≤ 2000 →
    ∀ i ∈ (storeRow t base entry n).stored, i < 2000 := by
  intro n
  induction n with
  | zero => exact fun h _ => h
  | succ n ih =>
    intro h hn i hi
    rcases List.mem_cons.mp hi with rfl | hi
    · omega
    · exact ih h (by omega) i hi

/-- Blank entries over a row. -/
theorem storeRow_blank (t : Terminal) (base i : Nat) : (storeRow t base blankEntry vgaWidth).buffer i =
    if base ≤ i ∧ i < base + 80 then vgaEntry space t.color else t.buffer i :=
  storeRow_buffer (fun _ => vgaEntry space t.color) _
    (fun k _ => by rw [blankEntry, (storeRow_statics t base blankEntry k).2.2]) i

end Loops

/-- A terminal whose screen is blank, with the cursor in the corner. -/
structure Cleared (t : Terminal) (n : Nat) : Prop where
  row : t.row = 0
  column : t.column = 0
  color : t.color = 10
  stored : ∀ i ∈ t.stored, i < 2000
  cells : ∀ i < n * 80, t.buffer i = vgaEntry space 10

theorem initializeRows_cleared {t : Terminal} (h : Cleared t 0) : ∀ n, n ≤ 25 →
    Cleared (initializeRows t n) n := by
  intro n
  induction n with
  | zero => exact fun _ => h
  | succ n ih =>
    intro hn
    have hc := ih (by omega)
    obtain ⟨hrow, hcolumn, hcolor⟩ := storeRow_statics (initializeRows t n) (n * vgaWidth) blankEntry vgaWidth
    simp only [initializeRows]
    refine ⟨hrow.trans hc.row, hcolumn.trans hc.column, hcolor.trans hc.color,
      storeRow_stored _ hc.stored (by simp only [vgaWidth]; omega), fun i hi => ?_⟩
    rw [storeRow_blank, hc.color]
    by_cases hlast : n * 80 ≤ i
    · rw [if_pos (by simp only [vgaWidth]; omega)]
    · rw [if_neg (by simp only [vgaWidth]; omega)]
      exact hc.cells i (by omega)

/-- What `terminal_scroll` does: every row moves up one, and the last is blank. -/
structure Scrolled (t t' : Terminal) : Prop where
  row : t'.row = t.row
  column : t'.column = t.column
  color : t'.color = t.color
  stored : (∀ i ∈ t.stored, i < 2000) → ∀ i ∈ t'.stored, i < 2000
  moved : ∀ i < 1920, t'.buffer i = t.buffer (i + 80)
  blank : ∀ i, 1920 ≤ i → i < 2000 → t'.buffer i = vgaEntry space t.color

theorem scrollRows_spec (t : Terminal) : ∀ n, n ≤ 24 →
    (scrollRows t n).row = t.row ∧ (scrollRows t n).column = t.column ∧
    (scrollRows t n).color = t.color ∧
    ((∀ i ∈ t.stored, i < 2000) → ∀ i ∈ (scrollRows t n).stored, i < 2000) ∧
    ∀ i, (scrollRows t n).buffer i = if i < n * 80 then t.buffer (i + 80) else t.buffer i := by
  intro n
  induction n with
  | zero => exact fun _ => ⟨rfl, rfl, rfl, id, fun i => by rw [if_neg (by omega)]; rfl⟩
  | succ n ih =>
    intro hn
    obtain ⟨hrow, hcolumn, hcolor, hstored, hbuffer⟩ := ih (by omega)
    obtain ⟨hrow', hcolumn', hcolor'⟩ := storeRow_statics (scrollRows t n) ((n + 1) * vgaWidth - vgaWidth)
      (fun t x => t.buffer ((n + 1) * vgaWidth + x)) vgaWidth
    have hbase : (n + 1) * vgaWidth - vgaWidth = n * 80 := by simp only [vgaWidth]; omega
    simp only [scrollRows]
    refine ⟨hrow'.trans hrow, hcolumn'.trans hcolumn, hcolor'.trans hcolor,
      fun h => storeRow_stored _ (hstored h) (by rw [hbase]; simp only [vgaWidth]; omega), fun i => ?_⟩
    -- the row below is still as it was when a row is copied over
    have hentry : ∀ k < vgaWidth, (storeRow (scrollRows t n) ((n + 1) * vgaWidth - vgaWidth)
        (fun t x => t.buffer ((n + 1) * vgaWidth + x)) k).buffer ((n + 1) * vgaWidth + k) =
        t.buffer ((n + 1) * 80 + k) := by
      intro k hk
      have hinner : ∀ k ≤ vgaWidth, ∀ j, (n + 1) * 80 ≤ j →
          (storeRow (scrollRows t n) ((n + 1) * vgaWidth - vgaWidth)
            (fun t x => t.buffer ((n + 1) * vgaWidth + x)) k).buffer j = t.buffer j := by
        intro k hk
        induction k with
        | zero =>
          intro j hj
          rw [storeRow, hbuffer, if_neg (by omega)]
        | succ k ih =>
          intro j hj
          simp only [storeRow, Terminal.store]
          rw [Function.update_of_ne (by simp only [vgaWidth] at *; omega)]
          exact ih (by omega) j hj
      exact hinner k (Nat.le_of_lt hk) _ (by simp only [vgaWidth]; omega)
    rw [storeRow_buffer _ vgaWidth hentry, hbase, hbuffer]
    simp only [vgaWidth]
    by_cases hlow : i < n * 80
    · rw [if_neg (by omega), if_pos hlow, if_pos (by omega)]
    · by_cases hin : i < n * 80 + 80
      · rw [if_pos (by omega), if_pos (by omega)]
        congr 1
        omega
      · rw [if_neg (by omega), if_neg hlow, if_neg (by omega)]

theorem terminalScroll_scrolled (t : Terminal) : Scrolled t (terminalScroll t) := by
  obtain ⟨hrow, hcolumn, hcolor, hstored, hbuffer⟩ := scrollRows_spec t 24 (Nat.le_refl _)
  obtain ⟨hrow', hcolumn', hcolor'⟩ := storeRow_statics (scrollRows t 24) 1920 blankEntry vgaWidth
  have hall : ∀ i, (terminalScroll t).buffer i =
      if 1920 ≤ i ∧ i < 1920 + 80 then vgaEntry space (scrollRows t 24).color
      else (scrollRows t 24).buffer i := fun i => storeRow_blank _ _ i
  refine ⟨hrow'.trans hrow, hcolumn'.trans hcolumn, hcolor'.trans hcolor,
    fun h => storeRow_stored _ (hstored h) (by decide), fun i hi => ?_, fun i h₀ h₁ => ?_⟩
  · rw [hall, if_neg (by omega), hbuffer, if_pos (by omega)]
  · rw [hall, if_pos (by omega), hcolor]

/-! ## Refinement -/

/-- The screen shows the text, with the cursor somewhere on its last row. -/
structure ShowsRows (t : Terminal) (text : Text) : Prop where
  color : t.color = 10
  stored : ∀ i ∈ t.stored, i < 2000
  row : t.row + 1 = min text.rows.length 25
  cells : ∀ y < 25, ∀ x < 80, t.buffer (y * 80 + x) = vgaEntry (text.shownAt y x) 10

/-- The cursor stands after the last character. -/
structure Shows (t : Terminal) (text : Text) : Prop extends ShowsRows t text where
  column : t.column = text.cur.length
  room : text.cur.length < 80

namespace Text

variable {text : Text} {y x : Nat} {c : Byte}

theorem shownAt_eq (text : Text) (y x : Nat) : text.shownAt y x =
    ((text.rows[text.rows.length - 25 + y]?).bind fun row => row[x]?).getD space := by
  rw [shownAt, shown, List.getElem?_drop]

theorem rows_length (text : Text) : text.rows.length = text.done.length + 1 := by
  rw [rows, List.length_append, List.length_singleton]

theorem rows_newRow (text : Text) : text.newRow.rows = text.rows ++ [[]] := rfl

/-- Before the screen is full a new row changes nothing on it. -/
theorem shownAt_newRow_room (h : text.rows.length < 25) :
    text.newRow.shownAt y x = text.shownAt y x := by
  rw [shownAt_eq, shownAt_eq, rows_newRow, List.length_append, List.length_singleton,
    show text.rows.length + 1 - 25 + y = y by omega, show text.rows.length - 25 + y = y by omega]
  by_cases hy : y < text.rows.length
  · rw [List.getElem?_append_left hy]
  · by_cases he : y = text.rows.length
    · subst he
      simp
    · rw [List.getElem?_eq_none (by rw [List.length_append, List.length_singleton]; omega),
        List.getElem?_eq_none (by omega)]

/-- On a full screen a new row pushes the others up. -/
theorem shownAt_newRow_full (h : 25 ≤ text.rows.length) (hy : y < 25) :
    text.newRow.shownAt y x = if y < 24 then text.shownAt (y + 1) x else space := by
  rw [shownAt_eq, shownAt_eq, rows_newRow, List.length_append, List.length_singleton]
  by_cases hlast : y < 24
  · rw [if_pos hlast, List.getElem?_append_left (by omega),
      show text.rows.length + 1 - 25 + y = text.rows.length - 25 + (y + 1) by omega]
  · rw [if_neg hlast, show text.rows.length + 1 - 25 + y = text.rows.length by omega]
    simp

theorem rows_getElem? (text : Text) (k : Nat) : text.rows[k]? =
    if k < text.done.length then text.done[k]?
    else if k = text.done.length then some text.cur else none := by
  by_cases hlow : k < text.done.length
  · rw [if_pos hlow, rows, List.getElem?_append_left hlow]
  · rw [if_neg hlow]
    by_cases hlast : k = text.done.length
    · rw [if_pos hlast, hlast, rows, List.getElem?_concat_length]
    · rw [if_neg hlast, List.getElem?_eq_none (by rw [rows_length]; omega)]

/-- A character is added at the place after the last one. -/
theorem shownAt_append : ({ text with cur := text.cur ++ [c] } : Text).shownAt y x =
    if text.rows.length - 25 + y + 1 = text.rows.length ∧ x = text.cur.length then c
    else text.shownAt y x := by
  have hlen := rows_length text
  have hlen' : ({ text with cur := text.cur ++ [c] } : Text).rows.length = text.rows.length := by
    rw [rows_length, rows_length]
  rw [shownAt_eq, shownAt_eq, hlen']
  by_cases hlast : text.rows.length - 25 + y = text.done.length
  · have hrow : text.rows[text.rows.length - 25 + y]? = some text.cur := by
      rw [rows_getElem?, if_neg (by omega), if_pos hlast]
    have hrow' : ({ text with cur := text.cur ++ [c] } : Text).rows[text.rows.length - 25 + y]? =
        some (text.cur ++ [c]) := by
      rw [rows_getElem?, if_neg (by simp only; omega), if_pos hlast]
    rw [hrow, hrow', Option.bind_some, Option.bind_some]
    by_cases hx : x = text.cur.length
    · rw [if_pos ⟨by omega, hx⟩, hx, List.getElem?_concat_length, Option.getD_some]
    · rw [if_neg (fun h => hx h.2)]
      by_cases hlt : x < text.cur.length
      · rw [List.getElem?_append_left hlt]
      · rw [List.getElem?_eq_none (by rw [List.length_append, List.length_singleton]; omega),
          List.getElem?_eq_none (by omega)]
  · have hrow : ({ text with cur := text.cur ++ [c] } : Text).rows[text.rows.length - 25 + y]? =
        text.rows[text.rows.length - 25 + y]? := by
      rw [rows_getElem?, rows_getElem?, if_neg hlast, if_neg hlast]
    rw [if_neg (fun h => hlast (by omega)), hrow]

end Text

variable {t : Terminal} {text : Text}

theorem terminalNextRow_eq (t : Terminal) : terminalNextRow t =
    if t.row + 1 = 25 then { terminalScroll { t with row := t.row + 1 } with row := 24 }
    else { t with row := t.row + 1 } := rfl

theorem terminalNextRow_column (t : Terminal) : (terminalNextRow t).column = t.column := by
  rw [terminalNextRow_eq]
  split
  · have hs := terminalScroll_scrolled { t with row := t.row + 1 }
    generalize terminalScroll { t with row := t.row + 1 } = t₁ at hs
    exact hs.column
  · rfl

theorem terminalPutchar_newline (t : Terminal) :
    terminalPutchar t newline = { terminalNextRow t with column := 0 } := if_pos rfl

theorem terminalPutchar_eq (t : Terminal) {c : Byte} (h : c ≠ newline) : terminalPutchar t c =
    if t.column + 1 = 80 then
      terminalNextRow { terminalPutentryat t c t.color t.column t.row with column := 0 }
    else { terminalPutentryat t c t.color t.column t.row with column := t.column + 1 } := if_neg h

/-- Going to the next row, by scrolling when the screen is full. -/
theorem ShowsRows.nextRow (h : ShowsRows t text) : ShowsRows (terminalNextRow t) text.newRow := by
  have hlen : text.newRow.rows.length = text.rows.length + 1 := by
    rw [Text.rows_newRow, List.length_append, List.length_singleton]
  have hrow := h.row
  by_cases hfull : 25 ≤ text.rows.length
  · have hs := terminalScroll_scrolled { t with row := t.row + 1 }
    rw [terminalNextRow_eq, if_pos (by omega)]
    generalize terminalScroll { t with row := t.row + 1 } = t₁ at hs
    refine ⟨hs.color.trans h.color, hs.stored h.stored, by rw [hlen]; simp only; omega,
      fun y hy x hx => ?_⟩
    rw [Text.shownAt_newRow_full hfull hy]
    by_cases hlast : y < 24
    · rw [if_pos hlast, ← h.cells (y + 1) (by omega) x hx]
      have hmoved := hs.moved (y * 80 + x) (by omega)
      rw [show y * 80 + x + 80 = (y + 1) * 80 + x by omega] at hmoved
      exact hmoved
    · rw [if_neg hlast]
      have hblank := hs.blank (y * 80 + x) (by omega) (by omega)
      rw [show ({ t with row := t.row + 1 } : Terminal).color = 10 from h.color] at hblank
      exact hblank
  · rw [terminalNextRow_eq, if_neg (by omega)]
    refine ⟨h.color, h.stored, by rw [hlen]; simp only; omega, fun y hy x hx => ?_⟩
    rw [Text.shownAt_newRow_room (by omega)]
    exact h.cells y hy x hx

/-- A character put at the cursor. -/
theorem Shows.putentryat (h : Shows t text) (c : Byte) :
    ShowsRows (terminalPutentryat t c t.color t.column t.row) { text with cur := text.cur ++ [c] } := by
  have hrow := h.row
  have hroom := h.room
  have hlen : ({ text with cur := text.cur ++ [c] } : Text).rows.length = text.rows.length := by
    rw [Text.rows_length, Text.rows_length]
  have hpos := Text.rows_length text
  refine ⟨h.color, fun i hi => ?_, by rw [hlen]; exact hrow, fun y hy x hx => ?_⟩
  · rcases List.mem_cons.mp hi with rfl | hi
    · rw [h.column]
      simp only [vgaWidth]
      omega
    · exact h.stored i hi
  · rw [Text.shownAt_append]
    simp only [terminalPutentryat, Terminal.store, Function.update_apply, vgaWidth, h.column, h.color]
    by_cases hat : text.rows.length - 25 + y + 1 = text.rows.length ∧ x = text.cur.length
    · rw [if_pos hat, if_pos (by omega)]
    · rw [if_neg hat, if_neg (by omega)]
      exact h.cells y hy x hx

/-- One character keeps the screen and the text in step. -/
theorem Shows.putchar (h : Shows t text) (c : Byte) : Shows (terminalPutchar t c) (text.put c) := by
  by_cases hnl : c = newline
  · subst hnl
    have hn := h.toShowsRows.nextRow
    rw [terminalPutchar_newline, Text.put, if_pos rfl]
    exact ⟨⟨hn.color, hn.stored, hn.row, hn.cells⟩, rfl, Nat.zero_lt_succ _⟩
  · have hp := h.putentryat c
    have hlen : (text.cur ++ [c]).length = text.cur.length + 1 := by simp
    have hcolumn := h.column
    have hroom := h.room
    by_cases hfull : text.cur.length + 1 = 80
    · have htext : text.put c = ({ text with cur := text.cur ++ [c] } : Text).newRow := by
        rw [Text.put, if_neg hnl]
        exact if_pos (hlen.trans hfull)
      rw [terminalPutchar_eq t hnl, if_pos (by omega), htext]
      have hn := ShowsRows.nextRow (t := { terminalPutentryat t c t.color t.column t.row with column := 0 })
        ⟨hp.color, hp.stored, hp.row, hp.cells⟩
      refine ⟨hn, ?_, Nat.zero_lt_succ _⟩
      exact terminalNextRow_column _
    · have htext : text.put c = { text with cur := text.cur ++ [c] } := by
        rw [Text.put, if_neg hnl]
        exact if_neg fun h => hfull (hlen.symm.trans h)
      rw [terminalPutchar_eq t hnl, if_neg (by omega), htext]
      exact ⟨⟨hp.color, hp.stored, hp.row, hp.cells⟩, by rw [hlen, ← hcolumn], by rw [hlen]; omega⟩

theorem Shows.write : ∀ (data : List Byte) {t : Terminal} {text : Text}, Shows t text →
    Shows (terminalWrite t data) (text.layOut data) := by
  intro data
  induction data with
  | nil => exact fun h => h
  | cons c data ih => exact fun h => ih (h.putchar c)

theorem terminalInitialize_shows (t : Terminal) (hstored : t.stored = []) :
    Shows (terminalInitialize t) Text.empty := by
  have hc := initializeRows_cleared (t := { t with
    row := 0, column := 0, color := vgaEntryColor vgaColorLightGreen vgaColorBlack })
    ⟨rfl, rfl, rfl, by simp [hstored], fun i hi => by omega⟩ 25 (Nat.le_refl _)
  refine ⟨⟨hc.color, hc.stored, ?_, fun y hy x hx => ?_⟩, hc.column, by decide⟩
  · change (initializeRows _ 25).row + 1 = 1
    rw [hc.row]
  · have hblank : Text.empty.shownAt y x = space := by
      rw [Text.shownAt_eq]
      change ((([[]] : List (List Byte))[0 + y]?).bind fun row => row[x]?).getD space = space
      cases y with
      | zero => rfl
      | succ y => simp
    rw [hblank]
    exact hc.cells (y * 80 + x) (by omega)

/-- The terminal refines the text: whatever is written after `terminal_initialize`,
every store is inside the buffer, the cursor is on the screen, and the cells show the
last 25 rows of the text laid out so far. -/
theorem terminal_refines_text (t : Terminal) (data : List Byte) :
    let t' := terminalWrite (terminalInitialize { t with stored := [] }) data
    let text := Text.empty.layOut data
    (∀ i ∈ t'.stored, i < 2000) ∧ (t'.row < 25 ∧ t'.column < 80) ∧
    ∀ y < 25, ∀ x < 80, t'.buffer (y * vgaWidth + x) =
      vgaEntry (text.shownAt y x) (vgaEntryColor vgaColorLightGreen vgaColorBlack) := by
  have h := (terminalInitialize_shows { t with stored := [] } rfl).write data
  have hrow := h.row
  have hcolumn := h.column
  have hroom := h.room
  exact ⟨h.stored, ⟨by omega, by omega⟩, h.cells⟩

end BrownieOS.Drivers
