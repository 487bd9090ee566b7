/-
The places that an editor can name.

Every place between two characters of a text has a position, with one kind of exception: the place
between the CR and the LF of a CR LF, which is inside what ends its line. A column never gets there
(`Text.not_insideCrlf_offsetOf`), and any other place is what its own position resolves to
(`Text.offsetOf_positionOf`). So an editor can send any replacement of a part of a text that does
not cut a CR LF in two.

The position of a place is read off the text in front of it: as many lines as end there, and the
units behind the last of these ends. Nothing of the text behind the place is looked at, and it is
enough to follow the text in front, from terminator to terminator.
-/
import WorkspaceSession.Proofs.ResolvedPositions

set_option autoImplicit false

namespace WorkspaceSession.Text

open Protocol (width)

/-! ## Inside a CR LF -/

/-- The character before a place is a CR and the one behind it an LF. -/
def InsideCrlf (text : List Char) (index : Nat) : Prop :=
  (text.take index).getLast? = some '\r' ∧ (text.drop index).head? = some '\n'

instance (text : List Char) (index : Nat) : Decidable (InsideCrlf text index) :=
  inferInstanceAs (Decidable (_ ∧ _))

theorem not_insideCrlf_zero (text : List Char) : ¬InsideCrlf text 0 := by
  rintro ⟨hlast, -⟩
  simp at hlast

/-- Further behind, the character in front of a text makes no difference. -/
theorem insideCrlf_cons_succ {c : Char} {rest : List Char} {index : Nat} :
    InsideCrlf (c :: rest) (index + 1)
      ↔ InsideCrlf rest index ∨ (index = 0 ∧ c = '\r' ∧ rest.head? = some '\n') := by
  unfold InsideCrlf
  rw [List.take_succ_cons, List.drop_succ_cons]
  cases hfront : rest.take index with
  | nil =>
    -- Only `c` stands in front, because the place is the start of the rest or the rest is empty.
    rcases List.take_eq_nil_iff.mp hfront with rfl | rfl
    · simp
    · simp
  | cons d front =>
    have hindex : index ≠ 0 := by
      rintro rfl
      simp at hfront
    rw [List.getLast?_cons_cons]
    simp [hindex]

/-- More text in front moves the place inside a CR LF and leaves it inside. -/
theorem InsideCrlf.cons {c : Char} {rest : List Char} {index : Nat} (h : InsideCrlf rest index) :
    InsideCrlf (c :: rest) (index + 1) :=
  insideCrlf_cons_succ.mpr (Or.inl h)

/-- No position resolves to a place inside a CR LF. -/
theorem not_insideCrlf_offsetOf (text : List Char) (position : Position) :
    ¬InsideCrlf text (offsetOf text position) := by
  rw [offsetOf_eq_offsetBy]
  induction text using induction_on_lines isLineBreak generalizing position with
  | nil =>
    rw [offsetBy_nil]
    exact not_insideCrlf_zero []
  | crlf rest ih =>
    rcases position with ⟨_ | n, column⟩
    · rw [offsetBy_crlf_zero]
      exact not_insideCrlf_zero _
    · rw [offsetBy_crlf_succ, Nat.add_comm, insideCrlf_cons_succ, insideCrlf_cons_succ]
      simp [ih ⟨n, column⟩]
  | stop c rest hbreak hcrlf ih =>
    rcases position with ⟨_ | n, column⟩
    · -- A CR is stripped off its line, and no other character that ends lines begins a CR LF.
      rw [offsetBy_stop_zero hcrlf hbreak]
      cases hchars : charsBefore (stripLineEnd [c]) column with
      | zero => exact not_insideCrlf_zero _
      | succ k =>
        have hcr : c ≠ '\r' := by
          rintro rfl
          exact nomatch hchars
        obtain ⟨⟨hlength, -⟩, -⟩ := isGreatest_charsBefore [c] column
        have hk : k = 0 := by
          rw [hchars, List.length_singleton] at hlength
          omega
        rw [hk, insideCrlf_cons_succ]
        simp [not_insideCrlf_zero, hcr]
    · have hnext : ¬(c = '\r' ∧ rest.head? = some '\n') := by
        rintro ⟨hc, hhead⟩
        obtain ⟨tail, htail⟩ := List.head?_eq_some_iff.mp hhead
        exact hcrlf tail hc htail
      rw [offsetBy_stop_succ hcrlf hbreak, Nat.add_comm, insideCrlf_cons_succ]
      simp only [ih ⟨n, column⟩, false_or, hnext, and_false, not_false_eq_true]
  | char c rest hbreak ih =>
    have hcr : c ≠ '\r' := by
      rintro rfl
      exact hbreak rfl
    have hbehind : ∀ position,
        ¬InsideCrlf (c :: rest) (offsetBy isLineBreak rest position + 1) := by
      intro position
      rw [insideCrlf_cons_succ]
      simp [ih position, hcr]
    rcases position with ⟨_ | n, column⟩
    · rw [offsetBy_char_zero Protocol.isLineBreak_of_isNewline hbreak]
      split_ifs
      · exact hbehind _
      · exact not_insideCrlf_zero _
    · rw [offsetBy_char_succ Protocol.isLineBreak_of_isNewline hbreak, Nat.add_comm]
      exact hbehind _

/-! ## The position of a place -/

/-- Where a table of lines ends: the number of its last line, and the units of that line. -/
def endPosition (table : List (List Char)) : Position :=
  ⟨table.length - 1, width (table.getLastD [])⟩

/-- The position of a place: the number of the line that it is on, and the units before it there. -/
def positionOf (text : List Char) (index : Nat) : Position :=
  endPosition (lines (text.take index))

theorem endPosition_cons (line : List Char) {table : List (List Char)} (h : table ≠ []) :
    endPosition (line :: table)
      = ⟨(endPosition table).line + 1, (endPosition table).column⟩ := by
  obtain ⟨next, rest, rfl⟩ := List.exists_cons_of_ne_nil h
  rfl

/-- The end of the text in front of a place resolves to the place. -/
theorem offsetBy_endPosition {front rest : List Char}
    (h : ¬InsideCrlf (front ++ rest) front.length) :
    offsetBy isLineBreak (front ++ rest) (endPosition (linesBy isLineBreak front))
      = front.length := by
  induction front using induction_on_lines isLineBreak with
  | nil => exact offsetBy_start isLineBreak rest
  | crlf front ih =>
    have hfront : ¬InsideCrlf (front ++ rest) front.length :=
      fun hinside => h hinside.cons.cons
    have htable := linesBy_ne_nil isLineBreak front
    rw [linesBy, endPosition_cons _ htable, List.cons_append, List.cons_append,
      offsetBy_crlf_succ, ih hfront, List.length_cons, List.length_cons]
    omega
  | stop c front hbreak hcrlf ih =>
    have hfront : ¬InsideCrlf (front ++ rest) front.length :=
      fun hinside => h hinside.cons
    -- What is behind the place begins with no LF that `c` would be the CR of.
    have hcrlf' : ∀ tail, c = '\r' → front ++ rest ≠ '\n' :: tail := by
      intro tail hc htail
      cases front with
      | nil =>
        rw [List.nil_append] at htail
        rw [htail] at h
        exact h (insideCrlf_cons_succ.mpr (Or.inr ⟨rfl, hc, rfl⟩))
      | cons d front =>
        obtain ⟨rfl, -⟩ := List.cons.inj htail
        exact hcrlf front hc rfl
    have htable := linesBy_ne_nil isLineBreak front
    rw [linesBy_stop hcrlf hbreak, endPosition_cons _ htable, List.cons_append,
      offsetBy_stop_succ hcrlf' hbreak, ih hfront, List.length_cons]
    omega
  | char c front hbreak ih =>
    have hfront : ¬InsideCrlf (front ++ rest) front.length :=
      fun hinside => h hinside.cons
    obtain ⟨line, more, htable, htable'⟩ := linesBy_char front rfl hbreak
    have hrest := ih hfront
    rw [htable] at hrest
    rw [htable', List.length_cons, List.cons_append]
    by_cases hmore : more = []
    · -- The place is on the first line, and `c` is one more character before it there.
      rw [hmore] at hrest ⊢
      have hend : endPosition [c :: line] = ⟨0, units16 c + width line⟩ := rfl
      have hend' : endPosition [line] = ⟨0, width line⟩ := rfl
      rw [hend'] at hrest
      rw [hend, offsetBy_char_zero Protocol.isLineBreak_of_isNewline hbreak,
        if_pos (Nat.le_add_right _ _), Nat.add_sub_cancel_left, hrest]
    · rw [endPosition_cons _ hmore] at hrest ⊢
      rw [offsetBy_char_succ Protocol.isLineBreak_of_isNewline hbreak, hrest]
      omega

/-- **Round trip.** A place that is not inside a CR LF is what its position resolves to. -/
theorem offsetOf_positionOf {text : List Char} {index : Nat} (hindex : index ≤ text.length)
    (h : ¬InsideCrlf text index) : offsetOf text (positionOf text index) = index := by
  have hlength : (text.take index).length = index := List.length_take_of_le hindex
  have hinside : ¬InsideCrlf (text.take index ++ text.drop index) (text.take index).length := by
    rwa [List.take_append_drop, hlength]
  have hplace := offsetBy_endPosition hinside
  rw [List.take_append_drop, hlength, ← lines_eq_linesBy, ← offsetOf_eq_offsetBy] at hplace
  exact hplace

/-! ## How large positions are -/

theorem column_endPosition_le (table : List (List Char)) :
    (endPosition table).column ≤ width table.flatten := by
  induction table with
  | nil => exact Nat.le_refl _
  | cons line table ih =>
    rw [List.flatten_cons, width_append]
    by_cases htable : table = []
    · rw [htable]
      exact Nat.le_add_right _ _
    · rw [endPosition_cons line htable]
      exact ih.trans (Nat.le_add_left _ _)

/-- A column has at most the units of the text. -/
theorem column_positionOf_le (text : List Char) (index : Nat) :
    (positionOf text index).column ≤ width text := by
  have htaken : width text = width (text.take index) + width (text.drop index) := by
    rw [← width_append, List.take_append_drop]
  have hcolumn := column_endPosition_le (lines (text.take index))
  rw [lines_eq_linesBy, flatten_linesBy rfl, ← lines_eq_linesBy] at hcolumn
  rw [positionOf, htaken]
  omega

/-- The line of a place is one that the text has. -/
theorem line_positionOf_lt {text : List Char} {index : Nat} (hindex : index ≤ text.length)
    (h : ¬InsideCrlf text index) : (positionOf text index).line < (lines text).length := by
  by_contra hpast
  -- A line past the last one is the end of the text, and the line of that is the last one.
  have hend := offsetOf_positionOf hindex h
  rw [offsetOf_of_le (Nat.le_of_not_lt hpast)] at hend
  have hpos : 0 < (lines text).length := by
    rw [lines_eq_linesBy]
    exact List.length_pos_iff.mpr (linesBy_ne_nil isLineBreak text)
  have hline : (positionOf text index).line = (lines text).length - 1 := by
    rw [positionOf, ← hend, List.take_length, endPosition]
  omega

/-- A position that can be sent: line and column are numbers of 32 bits. -/
def Position.Fits (position : Position) : Prop :=
  position.line < UInt32.size ∧ position.column < UInt32.size

theorem fits_positionOf {text : List Char} (hlines : (lines text).length < UInt32.size)
    (hunits : width text < UInt32.size) {index : Nat} (hindex : index ≤ text.length)
    (h : ¬InsideCrlf text index) : (positionOf text index).Fits :=
  ⟨(line_positionOf_lt hindex h).trans hlines,
    (column_positionOf_le text index).trans_lt hunits⟩

/-! ## Edit points -/

/-- **What can be edited.** In a text whose lines and units can be counted in 32 bits, the places
that positions resolve to are all but those inside a CR LF, and the range between the positions of
any two of them is replaced exactly. -/
theorem addressable_iff_not_insideCrlf {text : List Char}
    (hlines : (lines text).length < UInt32.size) (hunits : width text < UInt32.size) :
    (∀ index, (∃ position : Position, position.Fits ∧ offsetOf text position = index)
        ↔ index ≤ text.length ∧ ¬InsideCrlf text index)
    ∧ ∀ i j, i ≤ j → j ≤ text.length → ¬InsideCrlf text i → ¬InsideCrlf text j →
        (positionOf text i).Fits ∧ (positionOf text j).Fits
        ∧ ∀ replacement : String,
            (Edit.mk (some ⟨positionOf text i, positionOf text j⟩) replacement).applyTo text
              = text.take i ++ replacement.toList ++ text.drop j := by
  refine ⟨fun index => ⟨?_, ?_⟩, fun i j hij hj hi' hj' => ?_⟩
  · rintro ⟨position, -, rfl⟩
    exact ⟨offsetOf_le_length text position, not_insideCrlf_offsetOf text position⟩
  · rintro ⟨hindex, hinside⟩
    exact ⟨positionOf text index, fits_positionOf hlines hunits hindex hinside,
      offsetOf_positionOf hindex hinside⟩
  · have hi : i ≤ text.length := hij.trans hj
    refine ⟨fits_positionOf hlines hunits hi hi', fits_positionOf hlines hunits hj hj', ?_⟩
    intro replacement
    rw [Edit.applyTo]
    dsimp only
    rw [offsetOf_positionOf hi hi', offsetOf_positionOf hj hj', splice, max_eq_right hij]

/-- A line is joined to the next one over its CR LF, behind a character of two units. The place
behind the vertical tab can be named, the one inside the CR LF cannot. -/
theorem addressable_iff_not_insideCrlf_joined :
    let text := "a😀\r\nb\x0Bc".toList
    (lines text).length < UInt32.size ∧ width text < UInt32.size
      ∧ (∃ position : Position, position.Fits ∧ offsetOf text position = 6)
      ∧ (¬∃ position : Position, position.Fits ∧ offsetOf text position = 3)
      ∧ positionOf text 2 = ⟨0, 3⟩ ∧ positionOf text 4 = ⟨1, 0⟩
      ∧ (Edit.mk (some ⟨positionOf text 2, positionOf text 4⟩) "X").applyTo text
        = "a😀Xb\x0Bc".toList := by
  intro text
  have hlines : (lines text).length < UInt32.size := by decide
  have hunits : width text < UInt32.size := by decide
  obtain ⟨hplaces, hreplace⟩ := addressable_iff_not_insideCrlf hlines hunits
  refine ⟨hlines, hunits, (hplaces 6).mpr (by decide), ?_, by decide, by decide, ?_⟩
  · intro haddressed
    exact ((hplaces 3).mp haddressed).2 (by decide)
  · exact (hreplace 2 4 (by decide) (by decide) (by decide) (by decide)).2.2 "X"

end WorkspaceSession.Text
