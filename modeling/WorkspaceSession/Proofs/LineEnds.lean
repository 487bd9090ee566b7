/-
Positions and the ends of lines.

A column past the end of a line means the end, in front of what ends the line. The table of lines
and the end of a column do not agree about what that is: seven characters end a line, but only CR
and LF are stripped from it. So behind a rare break (VT, FF, U+0085, U+2028, U+2029) a column past
the line is past the break too, and is where the next line starts (`Text.staysOnLine_iff`). All
other positions stay on their line, and the texts in which all do are those without a rare break.

A line is taken apart here by the characters that end lines, into its content and its terminator,
without the function that strips it.
-/
import WorkspaceSession.Proofs.ProtocolEdits
import WorkspaceSession.Proofs.ResolvedPositions

set_option autoImplicit false

namespace WorkspaceSession.Text

open Protocol (width isRareBreak NoRareBreak)

/-! ## Contents and terminators -/

/-- The characters of a line in front of what ends it. -/
def content (line : List Char) : List Char :=
  line.takeWhile fun c => !isLineBreak c

/-- What ends a line; nothing ends the last one. -/
def terminator (line : List Char) : List Char :=
  line.dropWhile fun c => !isLineBreak c

theorem content_append_terminator (line : List Char) : content line ++ terminator line = line :=
  List.takeWhile_append_dropWhile

theorem not_isLineBreak_of_mem_content {line : List Char} :
    ∀ c ∈ content line, ¬isLineBreak c = true := by
  intro c hc hbreak
  have hpassed := List.mem_takeWhile_imp hc
  rw [hbreak] at hpassed
  exact nomatch hpassed

/-- Where a line is cut by its first character that ends lines. -/
theorem terminator_append {front stop : List Char} (hfront : ∀ c ∈ front, ¬isLineBreak c = true)
    (hstop : ∀ c, stop.head? = some c → isLineBreak c = true) :
    terminator (front ++ stop) = stop := by
  rw [terminator, List.dropWhile_append_of_pos fun c hc => by simpa using hfront c hc]
  cases stop with
  | nil => rfl
  | cons c rest => exact List.dropWhile_cons_of_neg (by simp [hstop c rfl])

/-- The terminators that there are: none, CR LF, or one character. -/
theorem Divides.terminator_cases {text : List Char} {table : List (List Char)}
    (h : Divides text table) {line : List Char} (hline : line ∈ table) :
    terminator line = [] ∨ terminator line = ['\r', '\n']
      ∨ ∃ c, isLineBreak c = true ∧ terminator line = [c] := by
  induction h with
  | @last last hbreaks =>
    left
    rw [List.mem_singleton.mp hline, ← List.append_nil last]
    exact terminator_append hbreaks fun _ hhead => nomatch hhead
  | cons hfront hstop _ ih =>
    rcases List.mem_cons.mp hline with rfl | hline
    · right
      cases hstop with
      | crlf => exact Or.inl (terminator_append hfront fun c hc => Option.some.inj hc ▸ rfl)
      | single hbreak _ =>
        exact Or.inr ⟨_, hbreak,
          terminator_append hfront fun d hd => Option.some.inj hd ▸ hbreak⟩
    · exact ih hline

/-- A line ends in a rare break, or all that ends it are newlines. -/
theorem terminator_rare_or_newlines {text line : List Char} (hline : line ∈ lines text) :
    (∃ c, isRareBreak c = true ∧ terminator line = [c])
      ∨ ∀ c ∈ terminator line, isNewline c = true := by
  rcases (divides_lines text).terminator_cases hline with hnone | hcrlf | ⟨c, hbreak, hstop⟩
  · exact Or.inr (by simp [hnone])
  · exact Or.inr (by simp [hcrlf, isNewline])
  · rcases Protocol.isLineBreak_iff.mp hbreak with hnewline | hrare
    · exact Or.inr (by simpa [hstop] using hnewline)
    · exact Or.inl ⟨c, hrare, hstop⟩

/-! ## Columns at the end of a line -/

theorem not_isNewline_of_mem_content {line : List Char} :
    ∀ c ∈ content line, ¬isNewline c = true :=
  fun c hc => mt (Protocol.isLineBreak_of_isNewline c) (not_isLineBreak_of_mem_content c hc)

/-- Newlines are stripped from a line, and its content is left. -/
theorem stripLineEnd_of_newlines {line : List Char}
    (h : ∀ c ∈ terminator line, isNewline c = true) : stripLineEnd line = content line := by
  conv_lhs => rw [← content_append_terminator line]
  exact stripLineEnd_append not_isNewline_of_mem_content h

/-- A rare break is not stripped. -/
theorem stripLineEnd_of_rare {line : List Char} {c : Char} (hc : isRareBreak c = true)
    (h : terminator line = [c]) : stripLineEnd line = content line ++ [c] := by
  have hline : line = (content line ++ [c]) ++ [] := by
    rw [List.append_nil, ← h, content_append_terminator]
  conv_lhs => rw [hline]
  refine stripLineEnd_append (fun d hd => ?_) (List.forall_mem_nil _)
  rcases List.mem_append.mp hd with hd | hd
  · exact not_isNewline_of_mem_content d hd
  · exact List.mem_singleton.mp hd ▸ Protocol.not_isNewline_of_isRareBreak hc

/-- A rare break takes one unit. -/
theorem units16_of_isRareBreak {c : Char} (h : isRareBreak c = true) : units16 c = 1 := by
  simp only [isRareBreak, Bool.or_eq_true, decide_eq_true_eq] at h
  rcases h with (((rfl | rfl) | rfl) | rfl) | rfl <;> rfl

theorem charsBefore_le_length (line : List Char) (units : Nat) :
    charsBefore line units ≤ line.length :=
  (Protocol.charsBefore_spec line units).1

/-- A column past the content is past a rare break, and any other one stays in the content. -/
theorem charsBefore_rare (front : List Char) {c : Char} (hc : isRareBreak c = true) (units : Nat) :
    charsBefore (front ++ [c]) units
      = if units ≤ width front then charsBefore front units else front.length + 1 := by
  split_ifs with hunits
  · have hpart := charsBefore_append_min front [c] units
    rwa [Nat.min_eq_left hunits] at hpart
  · obtain ⟨more, rfl⟩ := Nat.exists_eq_add_of_le (Nat.le_of_not_le hunits)
    have hbreak : units16 c ≤ more := by
      rw [units16_of_isRareBreak hc]
      omega
    rw [charsBefore_append_add, charsBefore, if_pos hbreak]
    rfl

/-! ## Staying on the line -/

/-- What a position resolves to is on its line, not behind the first character of what ends it. -/
def StaysOnLine (text : List Char) (position : Position) : Prop :=
  ∀ line ∈ (lines text)[position.line]?,
    lineStart text position.line ≤ offsetOf text position
      ∧ offsetOf text position ≤ lineStart text position.line + (content line).length

instance (text : List Char) (position : Position) : Decidable (StaysOnLine text position) :=
  inferInstanceAs (Decidable (∀ line ∈ (lines text)[position.line]?, _))

theorem staysOnLine_iff_charsBefore {text line : List Char} {position : Position}
    (h : (lines text)[position.line]? = some line) :
    StaysOnLine text position
      ↔ charsBefore (stripLineEnd line) position.column ≤ (content line).length := by
  have hoffset := offsetOf_of_line h
  constructor
  · intro hstays
    have hend := (hstays line h).2
    omega
  · intro hchars other hother
    obtain rfl : line = other := Option.some.inj (h.symm.trans hother)
    omega

/-- Where a line ends in newlines or in nothing, all its positions stay on it. -/
theorem staysOnLine_of_newlines {text line : List Char} {position : Position}
    (h : (lines text)[position.line]? = some line)
    (hstop : ∀ c ∈ terminator line, isNewline c = true) : StaysOnLine text position := by
  rw [staysOnLine_iff_charsBefore h, stripLineEnd_of_newlines hstop]
  exact charsBefore_le_length _ _

/-- Where a line ends in a rare break, the positions past its content do not stay on it. -/
theorem staysOnLine_iff_of_rare {text line : List Char} {position : Position}
    (h : (lines text)[position.line]? = some line) {c : Char} (hc : isRareBreak c = true)
    (hstop : terminator line = [c]) :
    StaysOnLine text position ↔ position.column ≤ width (content line) := by
  have hlength := charsBefore_le_length (content line) position.column
  rw [staysOnLine_iff_charsBefore h, stripLineEnd_of_rare hc hstop, charsBefore_rare _ hc]
  split_ifs with hcolumn
  · exact iff_of_true hlength hcolumn
  · exact iff_of_false (by omega) hcolumn

/-- A position stays on its line unless a rare break ends the line in front of its column. -/
theorem staysOnLine_iff_terminator {text line : List Char} {position : Position}
    (h : (lines text)[position.line]? = some line) :
    StaysOnLine text position
      ↔ ¬((∃ c, isRareBreak c = true ∧ terminator line = [c])
        ∧ width (content line) < position.column) := by
  rcases terminator_rare_or_newlines (List.mem_of_getElem? h) with hrare | hnewlines
  · obtain ⟨c, hc, hstop⟩ := hrare
    rw [staysOnLine_iff_of_rare h hc hstop, not_and, Nat.not_lt]
    exact ⟨fun hcolumn _ => hcolumn, fun himp => himp ⟨c, hc, hstop⟩⟩
  · refine iff_of_true (staysOnLine_of_newlines h hnewlines) ?_
    rintro ⟨⟨c, hc, hstop⟩, -⟩
    exact Protocol.not_isNewline_of_isRareBreak hc (hnewlines c (by simp [hstop]))

/-- A position that leaves its line is at the start of the next one. -/
theorem offsetOf_of_not_staysOnLine {text line : List Char} {position : Position}
    (h : (lines text)[position.line]? = some line) (hleaves : ¬StaysOnLine text position) :
    offsetOf text position = lineStart text (position.line + 1) := by
  rw [staysOnLine_iff_terminator h, not_not] at hleaves
  obtain ⟨⟨c, hc, hstop⟩, hcolumn⟩ := hleaves
  have hlength := congrArg List.length (content_append_terminator line)
  rw [hstop, List.length_append, List.length_singleton] at hlength
  rw [offsetOf_of_line h, ← lineStart_add_length h, stripLineEnd_of_rare hc hstop,
    charsBefore_rare _ hc, if_neg (Nat.not_le_of_lt hcolumn), hlength]

/-- The rare breaks of a text are those that end its lines. -/
theorem noRareBreak_iff_terminator {text : List Char} :
    NoRareBreak text
      ↔ ∀ line ∈ lines text, ¬∃ c, isRareBreak c = true ∧ terminator line = [c] := by
  have hflatten : (lines text).flatten = text := by
    rw [lines_eq_linesBy, flatten_linesBy rfl]
  constructor
  · rintro hplain line hline ⟨c, hc, hstop⟩
    have hends : c ∈ line := by
      rw [← content_append_terminator line, hstop]
      exact List.mem_append_right _ List.mem_cons_self
    have hmem : c ∈ text := hflatten ▸ List.mem_flatten_of_mem hline hends
    exact hplain c hmem hc
  · intro hlines c hc hrare
    rw [← hflatten, List.mem_flatten] at hc
    obtain ⟨line, hline, hc⟩ := hc
    -- Content has no characters that end lines, so the break is in the terminator.
    rw [← content_append_terminator line] at hc
    have hstop : c ∈ terminator line := (List.mem_append.mp hc).resolve_left fun hcontent =>
      not_isLineBreak_of_mem_content c hcontent (Protocol.isLineBreak_iff.mpr (Or.inr hrare))
    rcases terminator_rare_or_newlines hline with hends | hnewlines
    · exact hlines line hline hends
    · exact Protocol.not_isNewline_of_isRareBreak hrare (hnewlines c hstop)

/-- **Where a position resolves to its own line.** A position does so unless its line ends in a rare
break and its column is past the content of the line; then it resolves to the start of the next
line. So all positions of a text do so exactly if it has no rare break. -/
theorem staysOnLine_iff (text : List Char) :
    (∀ (position : Position) (line : List Char), (lines text)[position.line]? = some line →
        (StaysOnLine text position
          ↔ ¬((∃ c, isRareBreak c = true ∧ terminator line = [c])
            ∧ width (content line) < position.column))
        ∧ (¬StaysOnLine text position →
          offsetOf text position = lineStart text (position.line + 1)))
    ∧ ((∀ position, StaysOnLine text position) ↔ NoRareBreak text) := by
  refine ⟨fun position line hline =>
    ⟨staysOnLine_iff_terminator hline, offsetOf_of_not_staysOnLine hline⟩, ?_⟩
  rw [noRareBreak_iff_terminator]
  constructor
  · -- The first column past the content is enough to leave a line with a rare break.
    intro hstays line hmem hrare
    obtain ⟨n, hline⟩ := List.mem_iff_getElem?.mp hmem
    have hcolumn := hstays ⟨n, width (content line) + 1⟩
    exact (staysOnLine_iff_terminator hline).mp hcolumn ⟨hrare, Nat.lt_succ_self _⟩
  · intro hplain position line hline
    have hstays : StaysOnLine text position := (staysOnLine_iff_terminator hline).mpr
      fun hrare => hplain line (List.mem_of_getElem? hline) hrare.1
    exact hstays line hline

/-- Behind a character of two units and in front of the CR LF; a column past a form feed is the
start of the next line. -/
theorem staysOnLine_iff_formFeed :
    let text := "a😀\r\nb\x0Cc".toList
    (lines text)[0]? = some "a😀\r\n".toList ∧ StaysOnLine text ⟨0, 99⟩
      ∧ (lines text)[1]? = some "b\x0C".toList ∧ StaysOnLine text ⟨1, 1⟩
      ∧ ¬StaysOnLine text ⟨1, 2⟩ ∧ offsetOf text ⟨1, 2⟩ = lineStart text 2 := by
  intro text
  obtain ⟨hline, -⟩ := staysOnLine_iff text
  have hfirst : (lines text)[0]? = some "a😀\r\n".toList := by decide
  have hsecond : (lines text)[1]? = some "b\x0C".toList := by decide
  have hfeed : ∃ c, isRareBreak c = true ∧ terminator "b\x0C".toList = [c] :=
    ⟨'\x0C', by decide, by decide⟩
  have hleaves : ¬StaysOnLine text ⟨1, 2⟩ := fun hstays =>
    (hline ⟨1, 2⟩ _ hsecond).1.mp hstays ⟨hfeed, by decide⟩
  refine ⟨hfirst, (hline ⟨0, 99⟩ _ hfirst).1.mpr ?_, hsecond, (hline ⟨1, 1⟩ _ hsecond).1.mpr ?_,
    hleaves, (hline ⟨1, 2⟩ _ hsecond).2 hleaves⟩
  · rintro ⟨⟨c, -, hstop⟩, -⟩
    have hcrlf : terminator "a😀\r\n".toList = ['\r', '\n'] := by decide
    rw [hcrlf] at hstop
    exact nomatch hstop
  · rintro ⟨-, hcolumn⟩
    exact absurd hcolumn (by decide)

/-- A column past a vertical tab is the start of the next line, and an edit there is made on it. -/
theorem not_staysOnLine_verticalTab :
    ¬StaysOnLine "a\x0Bb".toList ⟨0, 99⟩
      ∧ offsetOf "a\x0Bb".toList ⟨0, 99⟩ = lineStart "a\x0Bb".toList 1
      ∧ (Edit.mk (some ⟨⟨0, 99⟩, ⟨0, 99⟩⟩) "X").applyTo "a\x0Bb".toList = "a\x0BXb".toList := by
  decide

end WorkspaceSession.Text
