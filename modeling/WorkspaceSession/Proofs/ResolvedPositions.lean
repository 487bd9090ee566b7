/-
What a position resolves to.

Lines, characters and UTF-16 units are three ways to count in one text, and a position is resolved
by going from the first to the last and back again: to the start of its line, to the units before
it, as many units on as the column says but not behind the line's last visible character, and to the
character that the unit reached belongs to. Each of these steps has an end beyond which there is
nothing, and so has the cut that an edit makes at the two characters found.

This file proves that no step leaves its range (`Text.resolve?_eq`, `Text.replace?_eq`), and what
comes out, in the terms of the line alone: the most characters of the line that the column has room
for. The lines themselves are described apart from the function that makes the table of them
(`Text.Divides`), and there is only one way to divide a text.
-/
import Mathlib.Data.List.DropRight
import Mathlib.Order.Bounds.Defs
import WorkspaceSession.Proofs.ProtocolPositions

set_option autoImplicit false

namespace WorkspaceSession.Text

open Protocol (width)

/-! ## The lines of a text -/

/-- What ends a line, given the text behind it: CR LF, or another character that ends lines. A CR
does so only if it is not the CR of a CR LF. -/
inductive EndsLine (rest : List Char) : List Char → Prop
  /-- CR LF ends one line. -/
  | crlf : EndsLine rest ['\r', '\n']
  /-- A single character. -/
  | single {c : Char} : isLineBreak c = true → (∀ tail, c = '\r' → rest ≠ '\n' :: tail) →
      EndsLine rest [c]

/-- A text divided into lines, each with what ends it; only the last one has no end. -/
inductive Divides : List Char → List (List Char) → Prop
  /-- Nothing ends the last line. -/
  | last {text : List Char} : (∀ c ∈ text, ¬isLineBreak c = true) → Divides text [text]
  /-- A line ends at the first character that ends lines. -/
  | cons {front stop rest : List Char} {table : List (List Char)} :
      (∀ c ∈ front, ¬isLineBreak c = true) → EndsLine rest stop → Divides rest table →
      Divides (front ++ (stop ++ rest)) ((front ++ stop) :: table)

theorem divides_lines (text : List Char) : Divides text (lines text) := by
  rw [lines_eq_linesBy]
  induction text using induction_on_lines isLineBreak with
  | nil => exact .last (by simp)
  | crlf rest ih => exact .cons (List.forall_mem_nil _) .crlf ih
  | stop c rest hbreak hcrlf ih =>
    rw [linesBy_stop hcrlf hbreak]
    exact .cons (List.forall_mem_nil _) (.single hbreak hcrlf) ih
  | char c rest hbreak ih =>
    obtain ⟨line, more, hrest, hlines⟩ := linesBy_char rest rfl hbreak
    rw [hrest] at ih
    rw [hlines]
    have hcons : ∀ front : List Char, (∀ d ∈ front, ¬isLineBreak d = true) →
        ∀ d ∈ c :: front, ¬isLineBreak d = true :=
      fun front hfront => List.forall_mem_cons.mpr ⟨hbreak, hfront⟩
    cases ih with
    | last hline => exact .last (hcons rest hline)
    | cons hfront hstop hdivides => exact .cons (hcons _ hfront) hstop hdivides

theorem linesBy_append {front stop rest : List Char} (hfront : ∀ c ∈ front, ¬isLineBreak c = true)
    (hstop : EndsLine rest stop) :
    linesBy isLineBreak (front ++ (stop ++ rest))
      = (front ++ stop) :: linesBy isLineBreak rest := by
  induction front with
  | nil =>
    cases hstop with
    | crlf => rfl
    | single hbreak hcrlf => exact linesBy_stop hcrlf hbreak
  | cons c front ih =>
    obtain ⟨hc, hfront⟩ := List.forall_mem_cons.mp hfront
    obtain ⟨line, more, hrest, hlines⟩ := linesBy_char (front ++ (stop ++ rest)) rfl hc
    rw [ih hfront, List.cons.injEq] at hrest
    rw [List.cons_append, hlines, ← hrest.1, ← hrest.2, List.cons_append]

theorem linesBy_of_forall {line : List Char} (hline : ∀ c ∈ line, ¬isLineBreak c = true) :
    linesBy isLineBreak line = [line] := by
  induction line with
  | nil => rfl
  | cons c line ih =>
    obtain ⟨hc, hline⟩ := List.forall_mem_cons.mp hline
    obtain ⟨first, more, hrest, hlines⟩ := linesBy_char line rfl hc
    rw [ih hline, List.cons.injEq] at hrest
    rw [hlines, ← hrest.1, ← hrest.2]

/-- **The lines of a text** are its only division into lines. -/
theorem divides_iff {text : List Char} {table : List (List Char)} :
    Divides text table ↔ table = lines text := by
  constructor
  · intro h
    rw [lines_eq_linesBy]
    induction h with
    | last hline => exact (linesBy_of_forall hline).symm
    | cons hfront hstop _ ih => rw [linesBy_append hfront hstop, ih]
  · rintro rfl
    exact divides_lines text

/-! ## UTF-16 units -/

theorem width_append (l r : List Char) : width (l ++ r) = width l + width r := by
  induction l with
  | nil => rw [List.nil_append, width, Nat.zero_add]
  | cons c l ih => rw [List.cons_append, width, width, ih, Nat.add_assoc]

/-- In the units of a whole text a column is counted on from the units before it. -/
theorem charsBefore_append_add (front rest : List Char) (units : Nat) :
    charsBefore (front ++ rest) (width front + units)
      = front.length + charsBefore rest units := by
  induction front with
  | nil => rw [List.nil_append, width, Nat.zero_add, List.length_nil, Nat.zero_add]
  | cons c front ih =>
    have hrest : units16 c + width front + units - units16 c = width front + units := by omega
    rw [List.cons_append, width, charsBefore, if_pos (by omega), hrest, ih, List.length_cons]
    omega

/-- A column that is kept within a part of the line does not see the rest of it. -/
theorem charsBefore_append_min (line stop : List Char) (units : Nat) :
    charsBefore (line ++ stop) (min units (width line)) = charsBefore line units := by
  induction line generalizing units with
  | nil =>
    have hzero : min units (width []) = 0 := Nat.min_zero units
    rw [List.nil_append, hzero]
    cases stop with
    | nil => rfl
    | cons c stop =>
      have hc := units16_pos c
      exact if_neg (by omega)
  | cons c line ih =>
    rw [List.cons_append, charsBefore, charsBefore, width]
    by_cases hfits : units16 c ≤ units
    · have hrest : min units (units16 c + width line) - units16 c
          = min (units - units16 c) (width line) := by omega
      rw [if_pos (by omega), if_pos hfits, hrest, ih]
    · rw [if_neg (by omega), if_neg hfits]

theorem charsBefore_mono (line : List Char) {units units' : Nat} (h : units ≤ units') :
    charsBefore line units ≤ charsBefore line units' := by
  induction line generalizing units units' with
  | nil => exact Nat.le_refl _
  | cons c rest ih =>
    have hrest : charsBefore rest (units - units16 c) ≤ charsBefore rest (units' - units16 c) :=
      ih (by omega)
    rw [charsBefore, charsBefore]
    split_ifs
    · omega
    · omega
    · omega
    · omega

/-! ## The end of a line -/

/-- The newlines at the end of a line are cut off, and nothing else. -/
theorem exists_eq_stripLineEnd_append (line : List Char) :
    ∃ stop, line = stripLineEnd line ++ stop := by
  refine ⟨line.rtakeWhile fun c => c = '\n' || c = '\r', ?_⟩
  exact (List.rdropWhile_append_rtakeWhile (p := fun c => c = '\n' || c = '\r')).symm

/-- **A column on its line**: the most characters of the line that have room in it, where a column
past the last one that is no newline has the room of all of these. -/
theorem isGreatest_charsBefore (line : List Char) (units : Nat) :
    IsGreatest {k | k ≤ line.length
        ∧ width (line.take k) ≤ min units (width (line.rdropWhile fun c => c = '\n' || c = '\r'))}
      (charsBefore (stripLineEnd line) units) := by
  obtain ⟨stop, hline⟩ := exists_eq_stripLineEnd_append line
  have hspec := Protocol.charsBefore_spec line (min units (width (stripLineEnd line)))
  have hcolumn : charsBefore line (min units (width (stripLineEnd line)))
      = charsBefore (stripLineEnd line) units := by
    have hpart := charsBefore_append_min (stripLineEnd line) stop units
    rwa [← hline] at hpart
  rw [hcolumn] at hspec
  obtain ⟨hlength, hfits, hmore⟩ := hspec
  refine ⟨⟨hlength, hfits⟩, ?_⟩
  rintro k ⟨hk, hkfits⟩
  by_contra hlt
  exact absurd (hmore k (Nat.lt_of_not_le hlt) hk) (Nat.not_lt_of_le hkfits)

/-! ## Where lines start -/

/-- The number of characters before a line. -/
def lineStart (text : List Char) (line : Nat) : Nat :=
  ((lines text).take line).flatten.length

theorem offsetOf_of_line {text line : List Char} {position : Position}
    (h : (lines text)[position.line]? = some line) :
    offsetOf text position
      = lineStart text position.line + charsBefore (stripLineEnd line) position.column := by
  rw [offsetOf, h, lineStart]

theorem offsetOf_of_le {text : List Char} {position : Position}
    (h : (lines text).length ≤ position.line) : offsetOf text position = text.length := by
  rw [offsetOf, List.getElem?_eq_none h]

/-- A text around one of its lines. -/
theorem exists_eq_append_line {text line : List Char} {n : Nat}
    (h : (lines text)[n]? = some line) :
    ∃ rest, text = ((lines text).take n).flatten ++ (line ++ rest) := by
  refine ⟨((lines text).drop (n + 1)).flatten, ?_⟩
  obtain ⟨hn, hget⟩ := List.getElem?_eq_some_iff.mp h
  have hsplit := List.take_append_drop n (lines text)
  rw [List.drop_eq_getElem_cons hn, hget] at hsplit
  have hflatten : (lines text).flatten = text := by
    rw [lines_eq_linesBy, flatten_linesBy rfl]
  rw [← hsplit, List.flatten_append, List.flatten_cons] at hflatten
  exact hflatten.symm

/-- No character of a line is behind the start of the next one. -/
theorem lineStart_add_length {text line : List Char} {n : Nat}
    (h : (lines text)[n]? = some line) :
    lineStart text n + line.length = lineStart text (n + 1) := by
  rw [lineStart, lineStart, List.take_add_one, h, List.flatten_append, List.length_append]
  simp

theorem lineStart_mono (text : List Char) {m n : Nat} (h : m ≤ n) :
    lineStart text m ≤ lineStart text n := by
  obtain ⟨k, rfl⟩ := Nat.exists_eq_add_of_le h
  rw [lineStart, lineStart, List.take_add, List.flatten_append, List.length_append]
  exact Nat.le_add_right _ _

theorem lineStart_le_length (text : List Char) (n : Nat) : lineStart text n ≤ text.length := by
  have hlength : ((lines text).take n).flatten.length + ((lines text).drop n).flatten.length
      = text.length := by
    rw [← List.length_append, ← List.flatten_append, List.take_append_drop, lines_eq_linesBy,
      flatten_linesBy rfl]
  rw [lineStart]
  omega

/-! ## The order of positions -/

/-- No position resolves to a character behind its line. -/
theorem offsetOf_le_lineStart_succ (text : List Char) (position : Position) :
    offsetOf text position ≤ lineStart text (position.line + 1)
      ∨ (lines text).length ≤ position.line := by
  rcases Nat.lt_or_ge position.line (lines text).length with hlt | hge
  · have hline := List.getElem?_eq_getElem hlt
    obtain ⟨⟨hcolumn, -⟩, -⟩ := isGreatest_charsBefore (lines text)[position.line] position.column
    have hnext := lineStart_add_length hline
    rw [offsetOf_of_line hline]
    left
    omega
  · exact Or.inr hge

theorem offsetOf_le_length (text : List Char) (position : Position) :
    offsetOf text position ≤ text.length := by
  rcases offsetOf_le_lineStart_succ text position with hline | hpast
  · exact hline.trans (lineStart_le_length text _)
  · exact (offsetOf_of_le hpast).le

/-- No position resolves to a character before its line. -/
theorem lineStart_le_offsetOf (text : List Char) (position : Position) :
    lineStart text position.line ≤ offsetOf text position := by
  rcases Nat.lt_or_ge position.line (lines text).length with hlt | hge
  · rw [offsetOf_of_line (List.getElem?_eq_getElem hlt)]
    exact Nat.le_add_right _ _
  · rw [offsetOf_of_le hge]
    exact lineStart_le_length text _

/-- **Resolving keeps the order** of positions, by lines and then by columns. -/
theorem offsetOf_mono (text : List Char) {p q : Position}
    (h : p.line < q.line ∨ p.line = q.line ∧ p.column ≤ q.column) :
    offsetOf text p ≤ offsetOf text q := by
  rcases h with hlines | ⟨hline, hcolumn⟩
  · have hstart := lineStart_mono text hlines
    have hq := lineStart_le_offsetOf text q
    rcases offsetOf_le_lineStart_succ text p with hp | hpast
    · rw [← Nat.succ_eq_add_one] at hp
      omega
    · have hqpast : (lines text).length ≤ q.line := by omega
      rw [offsetOf_of_le hpast, offsetOf_of_le hqpast]
  · rcases Nat.lt_or_ge q.line (lines text).length with hlt | hge
    · have hq := List.getElem?_eq_getElem hlt
      have hp : (lines text)[p.line]? = some (lines text)[q.line] := by rw [hline]; exact hq
      have hchars := charsBefore_mono (stripLineEnd (lines text)[q.line]) hcolumn
      rw [offsetOf_of_line hp, offsetOf_of_line hq, hline]
      omega
    · rw [offsetOf_of_le hge, offsetOf_of_le (hline ▸ hge)]

/-! ## Step by step -/

/-- The number of characters before a line; behind the last line is the end of the text. -/
def lineStart? (text : List Char) (line : Nat) : Option Nat :=
  if line ≤ (lines text).length then some (lineStart text line) else none

/-- The number of UTF-16 units before a character. -/
def unitsBefore? (text : List Char) (index : Nat) : Option Nat :=
  if index ≤ text.length then some (width (text.take index)) else none

/-- The character that a UTF-16 unit belongs to. -/
def charOfUnit? (text : List Char) (unit : Nat) : Option Nat :=
  if unit ≤ width text then some (charsBefore text unit) else none

/-- A position resolved step by step, in the units of the whole text. -/
def resolve? (text : List Char) (position : Position) : Option Nat :=
  if (lines text).length ≤ position.line then some text.length
  else do
    let start ← lineStart? text position.line
    let line ← (lines text)[position.line]?
    let first ← unitsBefore? text start
    let last ← unitsBefore? text (start + (stripLineEnd line).length)
    charOfUnit? text (min (first + position.column) last)

/-- A text without the characters from `start` up to `stop`. -/
def remove? (text : List Char) (start stop : Nat) : Option (List Char) :=
  if start ≤ stop ∧ stop ≤ text.length then some (text.take start ++ text.drop stop) else none

/-- A text with others characters before the one at an index. -/
def insert? (text : List Char) (index : Nat) (inserted : List Char) : Option (List Char) :=
  if index ≤ text.length then some (text.take index ++ inserted ++ text.drop index) else none

/-- A range replaced step by step. -/
def replace? (text : List Char) (range : Range) (replacement : List Char) :
    Option (List Char) := do
  let start ← resolve? text range.start
  let stop ← resolve? text range.stop
  let rest ← remove? text start (max stop start)
  insert? rest start replacement

theorem unitsBefore?_append (front rest : List Char) :
    unitsBefore? (front ++ rest) front.length = some (width front) := by
  have hle : front.length ≤ (front ++ rest).length := by
    rw [List.length_append]
    omega
  rw [unitsBefore?, if_pos hle, List.take_left]

/-- A column is looked up in the units of the whole text, from those before its line on and not
beyond those of the line. -/
theorem charOfUnit?_append (front line rest : List Char) (column : Nat) :
    charOfUnit? (front ++ (line ++ rest))
        (min (width front + column) (width front + width line))
      = some (front.length + charsBefore line column) := by
  have hunits : min (width front + column) (width front + width line)
      = width front + min column (width line) := by omega
  have hle : width front + min column (width line) ≤ width (front ++ (line ++ rest)) := by
    rw [width_append, width_append]
    omega
  rw [hunits, charOfUnit?, if_pos hle, charsBefore_append_add, charsBefore_append_min]

/-- **No step of resolving a position leaves its range**, and what comes out is the character that
the line alone says. -/
theorem resolve?_eq (text : List Char) (position : Position) :
    resolve? text position = some (offsetOf text position) := by
  rw [resolve?]
  split_ifs with hpast
  · rw [offsetOf_of_le hpast]
  · have hlt : position.line < (lines text).length := Nat.lt_of_not_le hpast
    have hline := List.getElem?_eq_getElem hlt
    obtain ⟨stop, hstop⟩ := exists_eq_stripLineEnd_append (lines text)[position.line]
    obtain ⟨rest, htext⟩ := exists_eq_append_line hline
    rw [hstop, List.append_assoc] at htext
    have hstart : lineStart? text position.line = some (lineStart text position.line) :=
      if_pos hlt.le
    -- The three conversions, in the text cut before the line and behind its last column.
    have hfirst := unitsBefore?_append ((lines text).take position.line).flatten
      (stripLineEnd (lines text)[position.line] ++ (stop ++ rest))
    have hlast := unitsBefore?_append (((lines text).take position.line).flatten
      ++ stripLineEnd (lines text)[position.line]) (stop ++ rest)
    have hchar := charOfUnit?_append ((lines text).take position.line).flatten
      (stripLineEnd (lines text)[position.line]) (stop ++ rest) position.column
    rw [← htext] at hfirst hchar
    rw [List.append_assoc, ← htext, List.length_append, width_append] at hlast
    rw [offsetOf_of_line hline, hstart, hline]
    simp only [Option.bind_eq_bind, Option.bind_some]
    rw [lineStart, hfirst, Option.bind_some, hlast, Option.bind_some, hchar]

/-- **No edit fails**: both cuts are made within the text. -/
theorem replace?_eq (text : List Char) (range : Range) (replacement : List Char) :
    replace? text range replacement
      = some (text.take (offsetOf text range.start) ++ replacement
          ++ text.drop (max (offsetOf text range.start) (offsetOf text range.stop))) := by
  have hstart := offsetOf_le_length text range.start
  have hstop := offsetOf_le_length text range.stop
  rw [replace?, resolve?_eq, resolve?_eq]
  generalize offsetOf text range.start = start at hstart ⊢
  generalize offsetOf text range.stop = stop at hstop ⊢
  have htaken : (text.take start).length = start := List.length_take_of_le hstart
  simp only [Option.bind_eq_bind, Option.bind_some]
  rw [remove?, if_pos ⟨Nat.le_max_right _ _, by omega⟩, Option.bind_some, insert?,
    if_pos (by rw [List.length_append]; omega)]
  rw [List.take_append_of_le_length htaken.ge, List.take_of_length_le htaken.le,
    List.drop_append_of_le_length htaken.ge, List.drop_of_length_le htaken.le, List.nil_append,
    max_comm]

/-! ## Resolution and splice -/

/-- **What a position resolves to, and what an edit does.** The lines of a text are its one division
by the characters that end lines. Then:
- a line that the text does not have resolves to the end of the text;
- on any other line a position resolves to the start of the line and as many of its characters as
  there is room for in the column, where the room ends with the last character of the line that is
  no newline at its end;
- resolving keeps the order of positions and stays within the text;
- an edit never fails, whatever its range, and gives the characters before the start, the
  replacement, and the characters from the end on, or from the start if the end lies before it. -/
theorem offsetOf_resolution (text : List Char) :
    (∀ table, Divides text table ↔ table = lines text)
    ∧ (∀ position, (lines text).length ≤ position.line → offsetOf text position = text.length)
    ∧ (∀ position line, (lines text)[position.line]? = some line →
        ∃ k, offsetOf text position = ((lines text).take position.line).flatten.length + k
          ∧ IsGreatest {k | k ≤ line.length ∧ width (line.take k)
              ≤ min position.column (width (line.rdropWhile fun c => c = '\n' || c = '\r'))} k)
    ∧ (∀ p q : Position, (p.line < q.line ∨ p.line = q.line ∧ p.column ≤ q.column) →
        offsetOf text p ≤ offsetOf text q)
    ∧ (∀ position, offsetOf text position ≤ text.length
        ∧ resolve? text position = some (offsetOf text position))
    ∧ ∀ range replacement,
        replace? text range replacement.toList
          = some ((Edit.mk (some range) replacement).applyTo text)
        ∧ (Edit.mk (some range) replacement).applyTo text
          = text.take (offsetOf text range.start) ++ replacement.toList
            ++ text.drop (max (offsetOf text range.start) (offsetOf text range.stop)) := by
  refine ⟨fun table => divides_iff, fun position => offsetOf_of_le, fun position line hline => ?_,
    fun p q => offsetOf_mono text, fun position => ?_, fun range replacement => ?_⟩
  · exact ⟨_, offsetOf_of_line hline, isGreatest_charsBefore line position.column⟩
  · exact ⟨offsetOf_le_length text position, resolve?_eq text position⟩
  · exact ⟨replace?_eq text range replacement.toList, rfl⟩

/-- A column inside a character of two units, a line that the text does not have, and the order of
three positions, in a text with three kinds of terminators. -/
theorem offsetOf_resolution_surrogate :
    let text := "a😀\r\nb\x0Bc".toList
    let line := "a😀\r\n".toList
    (lines text)[0]? = some line
      ∧ (∃ k, offsetOf text ⟨0, 2⟩ = ((lines text).take 0).flatten.length + k
          ∧ IsGreatest {k | k ≤ line.length ∧ width (line.take k)
              ≤ min 2 (width (line.rdropWhile fun c => c = '\n' || c = '\r'))} k)
      ∧ offsetOf text ⟨0, 2⟩ = 1
      ∧ (lines text).length ≤ 7 ∧ offsetOf text ⟨7, 0⟩ = text.length
      ∧ offsetOf text ⟨0, 99⟩ ≤ offsetOf text ⟨1, 0⟩
      ∧ offsetOf text ⟨1, 0⟩ ≤ offsetOf text ⟨1, 5⟩ := by
  intro text line
  obtain ⟨-, hpast, hline, horder, -⟩ := offsetOf_resolution text
  exact ⟨by decide, hline ⟨0, 2⟩ line (by decide), by decide, by decide,
    hpast ⟨7, 0⟩ (by decide), horder ⟨0, 99⟩ ⟨1, 0⟩ (Or.inl (by decide)),
    horder ⟨1, 0⟩ ⟨1, 5⟩ (Or.inr ⟨rfl, by decide⟩)⟩

end WorkspaceSession.Text
