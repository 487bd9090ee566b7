/-
Editor and document in step.

An editor that has sent all its edits believes that the document has the text that it sees itself,
which is the one by the protocol's rule. From one edit to the next the two texts stay the same as
long as ranges are resolved in plain texts, those without a rare break before their last character.
This is also the best that can be said: in any other text some insertion of one character goes to
another place, and from then on every edit is resolved in another text.
-/
import WorkspaceSession.Proofs.ProtocolPositions

set_option autoImplicit false

namespace WorkspaceSession

namespace Protocol

open Text (Position)

/-! ## One edit -/

/-- In a plain text an edit does what the protocol says. -/
theorem applyTo_eq_apply {text : List Char} (h : Plain text) (edit : Edit) :
    edit.applyTo text = apply text edit := by
  rw [Edit.applyTo, apply]
  cases edit.range? with
  | none => rfl
  | some range =>
    dsimp only
    rw [offsetOf_eq_offset h, offsetOf_eq_offset h, Text.splice]
    -- The end of a range that is not before its start is the later one of the two.
    split_ifs with hinverted
    · rw [max_eq_left hinverted.le]
    · rw [max_eq_right (Nat.le_of_not_lt hinverted)]

/-- The edit that inserts a text at a position. -/
def insertion (position : Position) (text : String) : Edit :=
  ⟨some ⟨position, position⟩, text⟩

theorem applyTo_insertion (text : List Char) (position : Position) (inserted : String) :
    (insertion position inserted).applyTo text
      = text.take (Text.offsetOf text position) ++ inserted.toList
        ++ text.drop (Text.offsetOf text position) := by
  rw [Edit.applyTo, insertion]
  dsimp only
  rw [Text.splice, max_self]

theorem apply_insertion (text : List Char) (position : Position) (inserted : String) :
    apply text (insertion position inserted)
      = text.take (offset text position) ++ inserted.toList
        ++ text.drop (offset text position) := by
  rw [apply, insertion]
  dsimp only
  rw [if_neg (Nat.lt_irrefl _)]

/-- A character that is inserted at two places can be seen at the earlier one, unless it is the one
that stands there. -/
theorem insert_ne {text : List Char} {i j : Nat} (hij : i < j) {c : Char} (hc : text[i]? ≠ some c)
    (hi : i < text.length) :
    text.take i ++ [c] ++ text.drop i ≠ text.take j ++ [c] ++ text.drop j := by
  intro h
  -- The two results are read at the earlier place: one has `c` there, the other has what stood
  -- there before.
  have hleft : (text.take i ++ [c] ++ text.drop i)[i]? = some c := by
    have hlength : (text.take i).length = i := List.length_take_of_le hi.le
    rw [List.append_assoc, List.getElem?_append_right hlength.le, hlength, Nat.sub_self]
    rfl
  have hright : (text.take j ++ [c] ++ text.drop j)[i]? = text[i]? := by
    have hlength : i < (text.take j).length := by
      rw [List.length_take]
      omega
    rw [List.append_assoc, List.getElem?_append_left hlength, List.getElem?_take_of_lt hij]
  rw [h, hright] at hleft
  exact hc hleft

/-- Outside plain texts the insertion of some letter does something else than the protocol says. -/
theorem exists_applyTo_ne {text : List Char} (h : ¬Plain text) :
    ∃ position c, (c = 'x' ∨ c = 'y') ∧
      (insertion position (String.ofList [c])).applyTo text
        ≠ apply text (insertion position (String.ofList [c])) := by
  obtain ⟨n, hlt, hlength⟩ := exists_offsetOf_lt h
  -- Two letters are enough to have one that does not stand at the earlier place already.
  obtain ⟨c, hc, hother⟩ : ∃ c : Char, (c = 'x' ∨ c = 'y')
      ∧ text[Text.offsetOf text ⟨n + 1, 0⟩]? ≠ some c := by
    by_cases hx : text[Text.offsetOf text ⟨n + 1, 0⟩]? = some 'x'
    · exact ⟨'y', Or.inr rfl, by rw [hx]; decide⟩
    · exact ⟨'x', Or.inl rfl, hx⟩
  refine ⟨⟨n + 1, 0⟩, c, hc, ?_⟩
  rw [applyTo_insertion, apply_insertion, String.toList_ofList]
  exact insert_ne hlt hother hlength

/-! ## Runs of edits -/

/-- The text after edits, one after the other, as the protocol says. -/
def applyAll (text : List Char) (edits : List Edit) : List Char :=
  edits.foldl apply text

/-- Every range is resolved in a plain text. -/
def PlainAlong : List Char → List Edit → Prop
  | _, [] => True
  | text, edit :: rest =>
    (edit.range?.isSome = true → Plain text) ∧ PlainAlong (apply text edit) rest

theorem foldl_applyTo_eq_applyAll {text : List Char} {edits : List Edit}
    (h : PlainAlong text edits) :
    edits.foldl (fun text edit => edit.applyTo text) text = applyAll text edits := by
  induction edits generalizing text with
  | nil => rfl
  | cons edit rest ih =>
    obtain ⟨hplain, hrest⟩ := h
    have hstep : edit.applyTo text = apply text edit := by
      cases hrange : edit.range? with
      | none => rw [Edit.applyTo, apply, hrange]
      | some range => exact applyTo_eq_apply (hplain (by rw [hrange]; rfl)) edit
    rw [List.foldl_cons, hstep, ih hrest]
    rfl

/-! ## Texts without rare breaks -/

/-- A text without any rare break. -/
def NoRareBreak (text : List Char) : Prop :=
  ∀ c ∈ text, ¬isRareBreak c = true

instance (text : List Char) : Decidable (NoRareBreak text) :=
  List.decidableBAll _ text

theorem NoRareBreak.plain {text : List Char} (h : NoRareBreak text) : Plain text :=
  fun c hc => h c (List.dropLast_subset _ hc)

/-- An edit brings in no character but those of its own text. -/
theorem NoRareBreak.apply {text : List Char} (h : NoRareBreak text) {edit : Edit}
    (hedit : NoRareBreak edit.text.toList) : NoRareBreak (apply text edit) := by
  intro c hc
  rw [Protocol.apply] at hc
  cases hrange : edit.range? with
  | none =>
    rw [hrange] at hc
    exact hedit c hc
  | some range =>
    rw [hrange] at hc
    dsimp only at hc
    split_ifs at hc
    all_goals
      rcases List.mem_append.mp hc with hc | hc
      · rcases List.mem_append.mp hc with hc | hc
        · exact h c (List.mem_of_mem_take hc)
        · exact hedit c hc
      · exact h c (List.mem_of_mem_drop hc)

theorem NoRareBreak.plainAlong {text : List Char} (h : NoRareBreak text) {edits : List Edit}
    (hedits : ∀ edit ∈ edits, NoRareBreak edit.text.toList) : PlainAlong text edits := by
  induction edits generalizing text with
  | nil => trivial
  | cons edit rest ih =>
    have hedit := hedits edit List.mem_cons_self
    exact ⟨fun _ => h.plain, ih (h.apply hedit) fun e he => hedits e (List.mem_cons_of_mem _ he)⟩

/-- A rare break at the end of a text is inside as soon as something is written behind it. -/
theorem exists_applyAll_ne {text : List Char} (h : ¬NoRareBreak text) :
    ∃ edits : List Edit, (∀ edit ∈ edits, NoRareBreak edit.text.toList) ∧
      edits.foldl (fun text edit => edit.applyTo text) text ≠ applyAll text edits := by
  have hletter : ∀ c : Char, c = 'x' ∨ c = 'y' → NoRareBreak (String.ofList [c]).toList := by
    rintro c (rfl | rfl)
    · decide
    · decide
  by_cases hplain : Plain text
  · -- The end is a position: the line past the last one.
    let past : Position := ⟨(Text.lines text).length, 0⟩
    have hend : Text.offsetOf text past = text.length := by
      rw [Text.offsetOf, List.getElem?_eq_none (Nat.le_refl _)]
    have hend' : offset text past = text.length := by
      rw [← offsetOf_eq_offset hplain, hend]
    -- A letter behind the text leaves its rare break inside.
    have hnext : ¬Plain (text ++ ['x']) := by
      intro hnext
      rw [Plain, List.dropLast_concat] at hnext
      exact h hnext
    obtain ⟨position, c, hc, hne⟩ := exists_applyTo_ne hnext
    refine ⟨[insertion past (String.ofList ['x']), insertion position (String.ofList [c])], ?_, ?_⟩
    · intro edit hedit
      rcases List.mem_cons.mp hedit with rfl | hedit
      · exact hletter 'x' (Or.inl rfl)
      · rw [List.mem_singleton.mp hedit]
        exact hletter c hc
    · have hfirst : (insertion past (String.ofList ['x'])).applyTo text = text ++ ['x'] := by
        rw [applyTo_insertion, hend, List.take_length, List.drop_length, String.toList_ofList,
          List.append_nil]
      have hfirst' : apply text (insertion past (String.ofList ['x'])) = text ++ ['x'] := by
        rw [apply_insertion, hend', List.take_length, List.drop_length, String.toList_ofList,
          List.append_nil]
      change (insertion position _).applyTo ((insertion past _).applyTo text)
        ≠ apply (apply text (insertion past _)) (insertion position _)
      rw [hfirst, hfirst']
      exact hne
  · obtain ⟨position, c, hc, hne⟩ := exists_applyTo_ne hplain
    refine ⟨[insertion position (String.ofList [c])], fun edit hedit => ?_, hne⟩
    rw [List.mem_singleton.mp hedit]
    exact hletter c hc

/-! ## In step -/

/-- The text of a document after batches of edits. -/
def textAfter (document : Document) (batches : List (List Edit × Int)) : String :=
  (batches.foldl (fun document batch => document.applyEdits batch.1 batch.2) document).text

/-- Batches of edits change the text of a document like all their edits in a row. -/
theorem textAfter_eq (document : Document) (batches : List (List Edit × Int)) :
    textAfter document batches
      = String.ofList ((batches.flatMap Prod.fst).foldl (fun text edit => edit.applyTo text)
          document.text.toList) := by
  rw [textAfter]
  induction batches generalizing document with
  | nil => exact String.ofList_toList.symm
  | cons batch rest ih =>
    rw [List.foldl_cons, ih, List.flatMap_cons, List.foldl_append, Document.applyEdits,
      String.toList_ofList]

/-- **Editor and document are in step** through any batches whose ranges are resolved in plain
texts. The documents on which every edit agrees with the protocol are the plain ones, and those that
stay in step whatever is edited without bringing in a rare break are those without a rare break. -/
theorem applyEdits_inStep (document : Document) :
    (∀ batches, PlainAlong document.text.toList (batches.flatMap Prod.fst) →
        textAfter document batches
          = String.ofList (applyAll document.text.toList (batches.flatMap Prod.fst)))
      ∧ (Plain document.text.toList ↔ ∀ edit version,
          (document.applyEdits [edit] version).text
            = String.ofList (apply document.text.toList edit))
      ∧ (NoRareBreak document.text.toList ↔ ∀ batches,
          (∀ edit ∈ batches.flatMap Prod.fst, NoRareBreak edit.text.toList) →
          textAfter document batches
            = String.ofList (applyAll document.text.toList (batches.flatMap Prod.fst))) := by
  have hrun : ∀ batches, PlainAlong document.text.toList (batches.flatMap Prod.fst) →
      textAfter document batches
        = String.ofList (applyAll document.text.toList (batches.flatMap Prod.fst)) := by
    intro batches h
    rw [textAfter_eq, foldl_applyTo_eq_applyAll h]
  refine ⟨hrun, ⟨fun h edit version => ?_, fun h => ?_⟩, ⟨fun h batches hedits => ?_, fun h => ?_⟩⟩
  · exact congrArg String.ofList (applyTo_eq_apply h edit)
  · by_contra hplain
    obtain ⟨position, c, -, hne⟩ := exists_applyTo_ne hplain
    have htext := h (insertion position (String.ofList [c])) document.version
    exact hne (String.ofList_injective htext)
  · exact hrun batches (h.plainAlong hedits)
  · by_contra hrare
    obtain ⟨edits, hedits, hne⟩ := exists_applyAll_ne hrare
    have hone : [(edits, document.version)].flatMap Prod.fst = edits := List.append_nil edits
    have htext := h [(edits, document.version)] (by rwa [hone])
    rw [textAfter_eq, hone] at htext
    exact hne (String.ofList_injective htext)

/-- Two lines are joined at a CR LF and divided again, in step, also behind a character of two
units. -/
theorem applyEdits_inStep_crlf :
    let document : Document := ⟨"a😀\r\nb", 1⟩
    let join : Edit := ⟨some ⟨⟨0, 9⟩, ⟨1, 0⟩⟩, ""⟩
    let divide : Edit := ⟨some ⟨⟨0, 3⟩, ⟨0, 3⟩⟩, "\n"⟩
    ((document.applyEdits [join] 2).applyEdits [divide] 3).text
      = String.ofList (applyAll document.text.toList [join, divide]) := by
  intro document join divide
  have hplain : PlainAlong document.text.toList [join, divide] :=
    ⟨fun _ => by decide, fun _ => by decide, trivial⟩
  exact (applyEdits_inStep document).1 [([join], 2), ([divide], 3)] hplain

/-- A vertical tab in front of the second line moves an edit of that line to the first one. -/
theorem applyEdits_out_of_step :
    let document : Document := ⟨"a\x0Bb\nc", 1⟩
    let edit : Edit := ⟨some ⟨⟨1, 0⟩, ⟨1, 1⟩⟩, "X"⟩
    (document.applyEdits [edit] 2).text = "a\x0BX\nc"
      ∧ (document.applyEdits [edit] 2).text
        ≠ String.ofList (applyAll document.text.toList [edit]) := by
  decide

end Protocol

end WorkspaceSession
