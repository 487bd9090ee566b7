/-
Positions, one character at a time.

The offset of a position is defined by a table of lines, but every edit shifts the table, and what
one wants to say about positions is said by walking the text. This file turns the table into a walk:
a terminator moves on to the next line, any other character is stepped over, and a column stops at
the first character that does not fit before it.

Which characters end a line is a parameter here, because the library and the protocol disagree
about it. CR LF taken as one ends a line in any case, and so do CR and LF alone.
-/
import Mathlib.Data.List.TakeWhile
import Mathlib.Tactic.Common
import WorkspaceSession.Text.Line

set_option autoImplicit false

namespace WorkspaceSession.Text

/-! ## Tables of lines -/

/-- The lines of a text where `isBreak` says which characters alone end a line. -/
def linesBy (isBreak : Char → Bool) : List Char → List (List Char)
  | [] => [[]]
  | '\r' :: '\n' :: rest => ['\r', '\n'] :: linesBy isBreak rest
  | c :: rest =>
    if isBreak c then [c] :: linesBy isBreak rest
    else
      match linesBy isBreak rest with
      | [] => [[c]]
      | line :: more => (c :: line) :: more

variable {isBreak : Char → Bool}

theorem linesBy_ne_nil (isBreak : Char → Bool) (text : List Char) : linesBy isBreak text ≠ [] := by
  induction text using linesBy.induct isBreak with
  | case1 => simp [linesBy]
  | case2 rest ih => simp [linesBy]
  | case3 c rest hcrlf hbreak ih =>
    rw [linesBy, if_pos hbreak]
    · exact List.cons_ne_nil _ _
    · exact hcrlf
  | case4 c rest hcrlf hbreak hnil ih => exact absurd hnil ih
  | case5 c rest hcrlf hbreak line more hlines ih =>
    rw [linesBy, if_neg hbreak, hlines]
    · exact List.cons_ne_nil _ _
    · exact hcrlf

/-- Whether a character ends a line for everybody. -/
def isNewline (c : Char) : Bool :=
  c = '\n' || c = '\r'

/-- A terminator of one character is the line, if no CR LF begins with it. -/
theorem linesBy_stop {c : Char} {rest : List Char} (hcrlf : ∀ tail, c = '\r' → rest ≠ '\n' :: tail)
    (hbreak : isBreak c = true) : linesBy isBreak (c :: rest) = [c] :: linesBy isBreak rest := by
  rw [linesBy, if_pos hbreak]
  exact hcrlf

/-- Any other character goes in front of the first line. -/
theorem linesBy_char {c : Char} (rest : List Char) (hnewline : isBreak '\r' = true)
    (hbreak : ¬isBreak c = true) :
    ∃ line more, linesBy isBreak rest = line :: more
      ∧ linesBy isBreak (c :: rest) = (c :: line) :: more := by
  obtain ⟨line, more, hlines⟩ := List.exists_cons_of_ne_nil (linesBy_ne_nil isBreak rest)
  refine ⟨line, more, hlines, ?_⟩
  rw [linesBy, if_neg hbreak, hlines]
  -- What is left is that no CR LF begins here: its CR would be a break.
  rintro tail rfl
  exact absurd hnewline hbreak

/-- The lines of a text are those of all its breaks. -/
theorem lines_eq_linesBy (text : List Char) : lines text = linesBy isLineBreak text := by
  induction text using lines.induct with
  | case1 => rfl
  | case2 rest ih => rw [lines, linesBy, ih]
  | case3 c rest hcrlf hbreak ih =>
    have hlines : lines (c :: rest) = [c] :: lines rest := by
      rw [lines, if_pos hbreak]
      exact hcrlf
    rw [hlines, linesBy_stop hcrlf hbreak, ih]
  -- The table of a rest is never empty.
  | case4 c rest hcrlf hbreak hnil ih => exact absurd (ih ▸ hnil) (linesBy_ne_nil _ _)
  | case5 c rest hcrlf hbreak line more hrest ih =>
    have hlines : lines (c :: rest) = (c :: line) :: more := by
      rw [lines, if_neg hbreak, hrest]
      exact hcrlf
    obtain ⟨line', more', hrest', hlines'⟩ := linesBy_char rest rfl hbreak
    rw [hrest, hrest', List.cons.injEq] at ih
    rw [hlines, hlines', ih.1, ih.2]

/-- Induction along the lines of a text: what ends a line, and the characters before it. -/
theorem induction_on_lines {motive : List Char → Prop} (isBreak : Char → Bool) (nil : motive [])
    (crlf : ∀ rest, motive rest → motive ('\r' :: '\n' :: rest))
    (stop : ∀ c rest, isBreak c = true → (∀ tail, c = '\r' → rest ≠ '\n' :: tail) → motive rest →
      motive (c :: rest))
    (char : ∀ c rest, ¬isBreak c = true → motive rest → motive (c :: rest)) (text : List Char) :
    motive text := by
  induction text using linesBy.induct isBreak with
  | case1 => exact nil
  | case2 rest ih => exact crlf rest ih
  | case3 c rest hcrlf hbreak ih => exact stop c rest hbreak hcrlf ih
  | case4 c rest hcrlf hbreak hnil ih => exact char c rest hbreak ih
  | case5 c rest hcrlf hbreak line more hlines ih => exact char c rest hbreak ih

/-- The lines put together give the text back. -/
theorem flatten_linesBy (hnewline : isBreak '\r' = true) (text : List Char) :
    (linesBy isBreak text).flatten = text := by
  induction text using induction_on_lines isBreak with
  | nil => rfl
  | crlf rest ih => rw [linesBy, List.flatten_cons, ih]; rfl
  | stop c rest hbreak hcrlf ih => rw [linesBy_stop hcrlf hbreak, List.flatten_cons, ih]; rfl
  | char c rest hbreak ih =>
    obtain ⟨line, more, hrest, hlines⟩ := linesBy_char rest hnewline hbreak
    rw [hrest, List.flatten_cons] at ih
    rw [hlines, List.flatten_cons, List.cons_append, ih]

/-! ## The end of a line -/

/-- Stripping stops at the last character that is no newline. -/
theorem stripLineEnd_cons {c : Char} (h : ¬isNewline c = true) (line : List Char) :
    stripLineEnd (c :: line) = c :: stripLineEnd line := by
  -- From the end of the line `c` comes last, and stops whatever has been dropped before it.
  have hkept : [c].dropWhile (fun c => c = '\n' || c = '\r') = [c] :=
    List.dropWhile_cons_of_neg h
  rw [stripLineEnd, stripLineEnd, List.reverse_cons, List.dropWhile_append, hkept]
  split_ifs with hempty
  · rw [List.isEmpty_iff.mp hempty]
    rfl
  · rw [List.reverse_append]
    rfl

/-- What is left of a line is what stands before its newlines. -/
theorem stripLineEnd_append {line stop : List Char} (hline : ∀ c ∈ line, ¬isNewline c = true)
    (hstop : ∀ c ∈ stop, isNewline c = true) : stripLineEnd (line ++ stop) = line := by
  induction line with
  | nil =>
    have hall : stop.reverse.dropWhile (fun c => c = '\n' || c = '\r') = [] :=
      List.dropWhile_eq_nil_iff.mpr fun c hc => hstop c (List.mem_reverse.mp hc)
    rw [List.nil_append, stripLineEnd, hall, List.reverse_nil]
  | cons c line ih =>
    rw [List.cons_append, stripLineEnd_cons (hline c List.mem_cons_self),
      ih fun d hd => hline d (List.mem_cons_of_mem _ hd)]

/-! ## Offsets in a table -/

/-- The number of characters before a position in a table of lines of a text of length `total`. -/
def offsetIn (lines : List (List Char)) (total : Nat) (position : Position) : Nat :=
  match lines[position.line]? with
  | none => total
  | some line =>
    (lines.take position.line).flatten.length + charsBefore (stripLineEnd line) position.column

theorem offsetIn_zero (line : List Char) (more : List (List Char)) (total column : Nat) :
    offsetIn (line :: more) total ⟨0, column⟩ = charsBefore (stripLineEnd line) column := by
  simp [offsetIn]

theorem offsetIn_succ (line : List Char) (more : List (List Char)) (total n column : Nat) :
    offsetIn (line :: more) (line.length + total) ⟨n + 1, column⟩
      = line.length + offsetIn more total ⟨n, column⟩ := by
  simp only [offsetIn, List.getElem?_cons_succ, List.take_succ_cons, List.flatten_cons,
    List.length_append]
  cases more[n]? with
  | none => rfl
  | some l => exact Nat.add_assoc _ _ _

/-- The number of characters before a position, where `isBreak` says what ends a line. -/
def offsetBy (isBreak : Char → Bool) (text : List Char) (position : Position) : Nat :=
  offsetIn (linesBy isBreak text) text.length position

theorem offsetOf_eq_offsetBy (text : List Char) (position : Position) :
    offsetOf text position = offsetBy isLineBreak text position := by
  have htable : offsetIn (lines text) text.length position
      = offsetBy isLineBreak text position := by
    rw [offsetBy, lines_eq_linesBy]
  exact htable

/-! ## Offsets, one character at a time -/

theorem offsetBy_nil (isBreak : Char → Bool) (position : Position) :
    offsetBy isBreak [] position = 0 := by
  obtain ⟨line, column⟩ := position
  cases line with
  | zero => rfl
  | succ n => rfl

theorem offsetBy_crlf_zero (rest : List Char) (column : Nat) :
    offsetBy isBreak ('\r' :: '\n' :: rest) ⟨0, column⟩ = 0 := by
  rw [offsetBy, linesBy, offsetIn_zero]
  rfl

theorem offsetBy_crlf_succ (rest : List Char) (n column : Nat) :
    offsetBy isBreak ('\r' :: '\n' :: rest) ⟨n + 1, column⟩
      = 2 + offsetBy isBreak rest ⟨n, column⟩ := by
  have hlength : ('\r' :: '\n' :: rest).length = ['\r', '\n'].length + rest.length := by
    simp only [List.length_cons, List.length_nil]
    omega
  rw [offsetBy, linesBy, hlength, offsetIn_succ]
  rfl

section

variable {c : Char} {rest : List Char}

theorem offsetBy_stop_zero (hcrlf : ∀ tail, c = '\r' → rest ≠ '\n' :: tail)
    (hbreak : isBreak c = true) (column : Nat) :
    offsetBy isBreak (c :: rest) ⟨0, column⟩ = charsBefore (stripLineEnd [c]) column := by
  rw [offsetBy, linesBy_stop hcrlf hbreak, offsetIn_zero]

theorem offsetBy_stop_succ (hcrlf : ∀ tail, c = '\r' → rest ≠ '\n' :: tail)
    (hbreak : isBreak c = true) (n column : Nat) :
    offsetBy isBreak (c :: rest) ⟨n + 1, column⟩ = 1 + offsetBy isBreak rest ⟨n, column⟩ := by
  have hlength : (c :: rest).length = [c].length + rest.length := by
    simp only [List.length_cons, List.length_nil]
    omega
  rw [offsetBy, linesBy_stop hcrlf hbreak, hlength, offsetIn_succ]
  rfl

variable (hnewline : ∀ c, isNewline c = true → isBreak c = true)

include hnewline

theorem offsetBy_char_zero (hbreak : ¬isBreak c = true) (column : Nat) :
    offsetBy isBreak (c :: rest) ⟨0, column⟩
      = if units16 c ≤ column then offsetBy isBreak rest ⟨0, column - units16 c⟩ + 1 else 0 := by
  obtain ⟨line, more, hrest, hlines⟩ := linesBy_char rest (hnewline '\r' rfl) hbreak
  rw [offsetBy, offsetBy, hrest, hlines, offsetIn_zero, offsetIn_zero,
    stripLineEnd_cons (mt (hnewline c) hbreak), charsBefore]

theorem offsetBy_char_succ (hbreak : ¬isBreak c = true) (n column : Nat) :
    offsetBy isBreak (c :: rest) ⟨n + 1, column⟩ = 1 + offsetBy isBreak rest ⟨n + 1, column⟩ := by
  obtain ⟨line, more, hrest, hlines⟩ := linesBy_char rest (hnewline '\r' rfl) hbreak
  -- Both lengths are split behind the first line, which is longer by one character with `c`; a
  -- position on a later line counts that line whole.
  have hflatten := flatten_linesBy (hnewline '\r' rfl) rest
  rw [hrest, List.flatten_cons] at hflatten
  have hlength : rest.length = line.length + more.flatten.length := by
    rw [← List.length_append, hflatten]
  have hlength' : (c :: rest).length = (c :: line).length + more.flatten.length := by
    rw [List.length_cons, List.length_cons, hlength]
    omega
  rw [offsetBy, offsetBy, hrest, hlines, hlength, hlength', offsetIn_succ, offsetIn_succ,
    List.length_cons]
  omega

end

/-! ## Starts of lines -/

theorem units16_pos (c : Char) : 0 < units16 c := by
  rw [units16]
  split_ifs
  · omega
  · omega

theorem offsetBy_start (isBreak : Char → Bool) (text : List Char) :
    offsetBy isBreak text ⟨0, 0⟩ = 0 := by
  obtain ⟨line, more, hlines⟩ := List.exists_cons_of_ne_nil (linesBy_ne_nil isBreak text)
  rw [offsetBy, hlines, offsetIn_zero]
  cases stripLineEnd line with
  | nil => rfl
  | cons c rest => rw [charsBefore, if_neg (by have := units16_pos c; omega)]

/-- A later line starts later, or where the text ends. -/
theorem offsetBy_succ_pos (hnewline : ∀ c, isNewline c = true → isBreak c = true) {text : List Char}
    (htext : text ≠ []) (n column : Nat) : 0 < offsetBy isBreak text ⟨n + 1, column⟩ := by
  induction text using induction_on_lines isBreak with
  | nil => exact absurd rfl htext
  | crlf rest ih =>
    rw [offsetBy_crlf_succ]
    omega
  | stop c rest hbreak hcrlf ih =>
    rw [offsetBy_stop_succ hcrlf hbreak]
    omega
  | char c rest hbreak ih =>
    rw [offsetBy_char_succ hnewline hbreak]
    omega

end WorkspaceSession.Text
