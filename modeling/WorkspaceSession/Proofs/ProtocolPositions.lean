/-
Positions as the protocol defines them.

An editor resolves positions by the rule of the Language Server Protocol, by which a line ends only
at LF, CR LF and CR. The documents here also end a line at VT, FF, U+0085, U+2028 and U+2029. The
two rules agree about every position of a text exactly if none of these rare breaks stands before
the last character of the text (`Protocol.offset_eq_iff_plain`); a rare break at the very end does
no harm, because the empty line behind it lies where the text ends. Where they disagree, some edit
comes out differently, and everything after it is built on another text.

The protocol's rule is written down here on its own, without the definitions it is compared with.
-/
import Mathlib.Data.Nat.Find
import WorkspaceSession.Document
import WorkspaceSession.Proofs.LineTable

set_option autoImplicit false

namespace WorkspaceSession

open Text (Position)

namespace Protocol

/-! ## The rule -/

/-- The lines of a text, each with what ends it; only the last line has no end. -/
def lines : List Char → List (List Char × List Char)
  | [] => [([], [])]
  | '\r' :: '\n' :: rest => ([], ['\r', '\n']) :: lines rest
  | '\r' :: rest => ([], ['\r']) :: lines rest
  | '\n' :: rest => ([], ['\n']) :: lines rest
  | c :: rest =>
    match lines rest with
    | [] => [([c], [])]
    | (line, stop) :: more => (c :: line, stop) :: more

/-- The number of UTF-16 code units of characters. -/
def width : List Char → Nat
  | [] => 0
  | c :: rest => Text.units16 c + width rest

/-- The number of characters of a line that a column is behind: as many as fit before it, so all of
them if the column is past the end. -/
def column (line : List Char) (units : Nat) : Nat :=
  Nat.findGreatest (fun k => width (line.take k) ≤ units) line.length

/-- The number of characters before a position. A line past the last is the end of the text. -/
def offset (text : List Char) (position : Position) : Nat :=
  match (lines text)[position.line]? with
  | none => text.length
  | some (line, _) =>
    (((lines text).take position.line).flatMap fun l => l.1 ++ l.2).length
      + column line position.column

/-- The text after a change. Both ends are resolved before anything is replaced; a range whose end
lies before its start inserts at the start. -/
def apply (text : List Char) (edit : Edit) : List Char :=
  match edit.range? with
  | none => edit.text.toList
  | some range =>
    let start := offset text range.start
    let stop := offset text range.stop
    if stop < start then text.take start ++ edit.text.toList ++ text.drop start
    else text.take start ++ edit.text.toList ++ text.drop stop

/-! ## Columns -/

theorem charsBefore_spec (line : List Char) (units : Nat) :
    Text.charsBefore line units ≤ line.length
      ∧ width (line.take (Text.charsBefore line units)) ≤ units
      ∧ ∀ k, Text.charsBefore line units < k → k ≤ line.length → units < width (line.take k) := by
  -- A character that fits takes its units off the column, so the induction is over all columns.
  induction line generalizing units with
  | nil => exact ⟨Nat.le_refl _, Nat.zero_le _, fun k hk hlength => by simp at hlength; omega⟩
  | cons c rest ih =>
    have hwidth : ∀ k, width ((c :: rest).take (k + 1)) = Text.units16 c + width (rest.take k) :=
      fun k => rfl
    rw [Text.charsBefore]
    split_ifs with hfits
    · obtain ⟨hle, hin, hout⟩ := ih (units - Text.units16 c)
      refine ⟨by rw [List.length_cons]; omega, by rw [hwidth]; omega, fun k hk hlength => ?_⟩
      obtain ⟨k, rfl⟩ : ∃ j, k = j + 1 := ⟨k - 1, by omega⟩
      have hrest := hout k (by omega) (by rw [List.length_cons] at hlength; omega)
      rw [hwidth]
      omega
    · refine ⟨Nat.zero_le _, Nat.zero_le _, fun k hk hlength => ?_⟩
      obtain ⟨k, rfl⟩ : ∃ j, k = j + 1 := ⟨k - 1, by omega⟩
      rw [hwidth]
      omega

/-- As many characters as fit: the walk over a line finds the greatest number. -/
theorem charsBefore_eq_column (line : List Char) (units : Nat) :
    Text.charsBefore line units = column line units := by
  obtain ⟨hle, hfits, hgreatest⟩ := charsBefore_spec line units
  refine (Nat.findGreatest_eq_iff.mpr ⟨hle, fun _ => hfits, ?_⟩).symm
  intro k hk hklength
  exact Nat.not_le_of_lt (hgreatest k hk hklength)

/-! ## Lines -/

theorem lines_ne_nil (text : List Char) : lines text ≠ [] := by
  induction text using lines.induct with
  | case1 => exact List.cons_ne_nil _ _
  | case2 rest ih => exact List.cons_ne_nil _ _
  | case3 rest hcrlf ih => rw [lines]; exact List.cons_ne_nil _ _; exact hcrlf
  | case4 rest ih => exact List.cons_ne_nil _ _
  | case5 c rest h1 h2 h3 hnil ih => exact absurd hnil ih
  | case6 c rest h1 h2 h3 line stop more hlines ih =>
    rw [lines, hlines]
    · exact List.cons_ne_nil _ _
    · exact h1
    · exact h2
    · exact h3

theorem lines_stop {c : Char} {rest : List Char} (hcrlf : ∀ tail, c = '\r' → rest ≠ '\n' :: tail)
    (hc : Text.isNewline c = true) : lines (c :: rest) = ([], [c]) :: lines rest := by
  simp only [Text.isNewline, Bool.or_eq_true, decide_eq_true_eq] at hc
  rcases hc with rfl | rfl
  · rfl
  · rw [lines]
    exact fun tail htail => hcrlf tail rfl htail

theorem lines_char {c : Char} (rest : List Char) (hc : ¬Text.isNewline c = true) :
    ∃ line stop more, lines rest = (line, stop) :: more
      ∧ lines (c :: rest) = (c :: line, stop) :: more := by
  obtain ⟨⟨line, stop⟩, more, hrest⟩ := List.exists_cons_of_ne_nil (lines_ne_nil rest)
  refine ⟨line, stop, more, hrest, ?_⟩
  simp only [Text.isNewline, Bool.or_eq_true, decide_eq_true_eq, not_or] at hc
  rw [lines, hrest]
  · exact fun tail hcr => absurd hcr hc.2
  · exact hc.2
  · exact hc.1

theorem map_lines (text : List Char) :
    (lines text).map (fun l => l.1 ++ l.2) = Text.linesBy Text.isNewline text := by
  -- Both tables are built along the same lines; here the terminator stands apart.
  induction text using Text.induction_on_lines Text.isNewline with
  | nil => rfl
  | crlf rest ih => rw [lines, Text.linesBy, List.map_cons, ih]; rfl
  | stop c rest hbreak hcrlf ih =>
    rw [lines_stop hcrlf hbreak, Text.linesBy_stop hcrlf hbreak, List.map_cons, ih]
    rfl
  | char c rest hbreak ih =>
    obtain ⟨line, stop, more, hrest, hlines⟩ := lines_char rest hbreak
    obtain ⟨line', more', hrest', hlines'⟩ := Text.linesBy_char rest rfl hbreak
    rw [hrest, hrest', List.map_cons, List.cons.injEq] at ih
    rw [hlines, hlines', List.map_cons, ih.2, ← ih.1]
    rfl

/-- No newline stands on a line, and nothing else behind it. -/
theorem isNewline_of_mem_lines {text : List Char} {l : List Char × List Char}
    (h : l ∈ lines text) :
    (∀ c ∈ l.1, ¬Text.isNewline c = true) ∧ ∀ c ∈ l.2, Text.isNewline c = true := by
  induction text using Text.induction_on_lines Text.isNewline generalizing l with
  | nil => simp [List.mem_singleton.mp h]
  | crlf rest ih =>
    rcases List.mem_cons.mp h with rfl | h
    · exact ⟨by simp, by simp [Text.isNewline]⟩
    · exact ih h
  | stop c rest hbreak hcrlf ih =>
    rw [lines_stop hcrlf hbreak] at h
    rcases List.mem_cons.mp h with rfl | h
    · exact ⟨by simp, fun d hd => List.mem_singleton.mp hd ▸ hbreak⟩
    · exact ih h
  | char c rest hbreak ih =>
    obtain ⟨line, stop, more, hrest, hlines⟩ := lines_char rest hbreak
    rw [hrest] at ih
    rw [hlines] at h
    rcases List.mem_cons.mp h with rfl | h
    · obtain ⟨hline, hstop⟩ := ih List.mem_cons_self
      refine ⟨fun d hd => ?_, hstop⟩
      rcases List.mem_cons.mp hd with rfl | hd
      · exact hbreak
      · exact hline d hd
    · exact ih (List.mem_cons_of_mem _ h)

/-- The protocol's rule is the walk over the text in which only newlines end a line. -/
theorem offset_eq_offsetBy (text : List Char) (position : Position) :
    offset text position = Text.offsetBy Text.isNewline text position := by
  rw [offset, Text.offsetBy, Text.offsetIn, ← map_lines, List.getElem?_map, ← List.map_take]
  cases hl : (lines text)[position.line]? with
  | none => rfl
  | some l =>
    obtain ⟨hline, hstop⟩ := isNewline_of_mem_lines (List.mem_of_getElem? hl)
    rw [Option.map_some]
    dsimp only
    rw [Text.stripLineEnd_append hline hstop, charsBefore_eq_column, List.flatMap_def]

/-! ## Where the rules agree -/

/-- The characters that end a line of a document but not a line of the protocol: VT, FF, U+0085,
U+2028 and U+2029. -/
def isRareBreak (c : Char) : Bool :=
  c = '\x0B' || c = '\x0C' || c = '\u0085' || c = '\u2028' || c = '\u2029'

theorem isLineBreak_iff {c : Char} :
    Text.isLineBreak c = true ↔ Text.isNewline c = true ∨ isRareBreak c = true := by
  simp only [Text.isLineBreak, Text.isNewline, isRareBreak, Bool.or_eq_true, decide_eq_true_eq]
  tauto

theorem isLineBreak_of_isNewline (c : Char) (h : Text.isNewline c = true) :
    Text.isLineBreak c = true :=
  isLineBreak_iff.mpr (Or.inl h)

theorem not_isNewline_of_isRareBreak {c : Char} (h : isRareBreak c = true) :
    ¬Text.isNewline c = true := by
  simp only [isRareBreak, Bool.or_eq_true, decide_eq_true_eq] at h
  rcases h with (((rfl | rfl) | rfl) | rfl) | rfl <;> decide

/-- A text without a rare break before its last character. -/
def Plain (text : List Char) : Prop :=
  ∀ c ∈ text.dropLast, ¬isRareBreak c = true

instance (text : List Char) : Decidable (Plain text) :=
  List.decidableBAll _ text.dropLast

theorem plain_cons {c : Char} {rest : List Char} :
    Plain (c :: rest) ↔ (isRareBreak c = true → rest = []) ∧ Plain rest := by
  cases rest with
  | nil => simp [Plain]
  | cons d rest => simp [Plain]

/-- In a plain text every position is the same place by both rules. -/
theorem offsetOf_eq_offset {text : List Char} (h : Plain text) (position : Position) :
    Text.offsetOf text position = offset text position := by
  rw [Text.offsetOf_eq_offsetBy, offset_eq_offsetBy]
  induction text using Text.induction_on_lines Text.isLineBreak generalizing position with
  | nil => rw [Text.offsetBy_nil, Text.offsetBy_nil]
  | crlf rest ih =>
    have hrest : Plain rest := (plain_cons.mp (plain_cons.mp h).2).2
    rcases position with ⟨_ | n, units⟩
    · rw [Text.offsetBy_crlf_zero, Text.offsetBy_crlf_zero]
    · rw [Text.offsetBy_crlf_succ, Text.offsetBy_crlf_succ, ih hrest]
  | stop c rest hbreak hcrlf ih =>
    obtain ⟨hlast, hrest⟩ := plain_cons.mp h
    rcases isLineBreak_iff.mp hbreak with hnewline | hrare
    · rcases position with ⟨_ | n, units⟩
      · rw [Text.offsetBy_stop_zero hcrlf hbreak, Text.offsetBy_stop_zero hcrlf hnewline]
      · rw [Text.offsetBy_stop_succ hcrlf hbreak, Text.offsetBy_stop_succ hcrlf hnewline, ih hrest]
    · -- The rare break is the last character: the line behind it is empty.
      obtain rfl := hlast hrare
      have hnewline := not_isNewline_of_isRareBreak hrare
      rcases position with ⟨_ | n, units⟩
      · rw [Text.offsetBy_stop_zero hcrlf hbreak, Text.offsetBy_char_zero (fun _ => id) hnewline,
          Text.stripLineEnd_cons hnewline, Text.offsetBy_nil]
        rfl
      · rw [Text.offsetBy_stop_succ hcrlf hbreak, Text.offsetBy_char_succ (fun _ => id) hnewline,
          Text.offsetBy_nil, Text.offsetBy_nil]
  | char c rest hbreak ih =>
    obtain ⟨-, hrest⟩ := plain_cons.mp h
    have hnewline : ¬Text.isNewline c = true := mt (isLineBreak_of_isNewline c) hbreak
    rcases position with ⟨_ | n, units⟩
    · rw [Text.offsetBy_char_zero isLineBreak_of_isNewline hbreak,
        Text.offsetBy_char_zero (fun _ => id) hnewline, ih hrest]
    · rw [Text.offsetBy_char_succ isLineBreak_of_isNewline hbreak,
        Text.offsetBy_char_succ (fun _ => id) hnewline, ih hrest]

/-- Behind a rare break inside a text some line starts too early. -/
theorem exists_offsetOf_lt {text : List Char} (h : ¬Plain text) :
    ∃ n, Text.offsetOf text ⟨n + 1, 0⟩ < offset text ⟨n + 1, 0⟩
      ∧ Text.offsetOf text ⟨n + 1, 0⟩ < text.length := by
  simp only [Text.offsetOf_eq_offsetBy, offset_eq_offsetBy]
  induction text using Text.induction_on_lines Text.isLineBreak with
  | nil => exact absurd (by decide : Plain []) h
  -- In all cases but the rare break itself the text behind it is no plain one either, and both
  -- rules come to the same place in it.
  | crlf rest ih =>
    have hrest : ¬Plain rest := fun hrest =>
      h (plain_cons.mpr ⟨fun hr => absurd hr (by decide), plain_cons.mpr
        ⟨fun hn => absurd hn (by decide), hrest⟩⟩)
    obtain ⟨n, hlt, hlength⟩ := ih hrest
    refine ⟨n + 1, ?_, ?_⟩
    · rw [Text.offsetBy_crlf_succ, Text.offsetBy_crlf_succ]
      omega
    · rw [Text.offsetBy_crlf_succ, List.length_cons, List.length_cons]
      omega
  | stop c rest hbreak hcrlf ih =>
    rcases isLineBreak_iff.mp hbreak with hnewline | hrare
    · have hrest : ¬Plain rest := fun hrest => h (plain_cons.mpr
        ⟨fun hrare => absurd hnewline (not_isNewline_of_isRareBreak hrare), hrest⟩)
      obtain ⟨n, hlt, hlength⟩ := ih hrest
      refine ⟨n + 1, ?_, ?_⟩
      · rw [Text.offsetBy_stop_succ hcrlf hbreak, Text.offsetBy_stop_succ hcrlf hnewline]
        omega
      · rw [Text.offsetBy_stop_succ hcrlf hbreak, List.length_cons]
        omega
    · -- The next line starts behind the rare break; for the protocol it starts later.
      have hne : rest ≠ [] := by
        rintro rfl
        exact h (plain_cons.mpr ⟨fun _ => rfl, by decide⟩)
      have hpos := List.length_pos_iff.mpr hne
      have hnext := Text.offsetBy_succ_pos (fun _ => id) hne 0 0
      refine ⟨0, ?_, ?_⟩
      · rw [Text.offsetBy_stop_succ hcrlf hbreak, Text.offsetBy_start,
          Text.offsetBy_char_succ (fun _ => id) (not_isNewline_of_isRareBreak hrare)]
        omega
      · rw [Text.offsetBy_stop_succ hcrlf hbreak, Text.offsetBy_start, List.length_cons]
        omega
  | char c rest hbreak ih =>
    have hrest : ¬Plain rest := fun hrest =>
      h (plain_cons.mpr ⟨fun hr => absurd (isLineBreak_iff.mpr (Or.inr hr)) hbreak, hrest⟩)
    obtain ⟨n, hlt, hlength⟩ := ih hrest
    refine ⟨n, ?_, ?_⟩
    · rw [Text.offsetBy_char_succ isLineBreak_of_isNewline hbreak,
        Text.offsetBy_char_succ (fun _ => id) (mt (isLineBreak_of_isNewline c) hbreak)]
      omega
    · rw [Text.offsetBy_char_succ isLineBreak_of_isNewline hbreak, List.length_cons]
      omega

/-- **Where the rules agree.** Every position is the same place by both rules exactly in plain
texts. -/
theorem offset_eq_iff_plain {text : List Char} :
    (∀ position, Text.offsetOf text position = offset text position) ↔ Plain text := by
  refine ⟨fun h => ?_, offsetOf_eq_offset⟩
  by_contra hplain
  obtain ⟨n, hlt, -⟩ := exists_offsetOf_lt hplain
  exact absurd (h ⟨n + 1, 0⟩) hlt.ne

end Protocol

end WorkspaceSession
