/-
Reading the arguments.

A value that comes with the next argument is kept back until something follows it, so what has been
read at some point is told by what settling would give (`Reading.Asks`), and not by the options
alone; for what follows it makes no difference whether it has been settled
(`Reading.foldlM_settle`). Files that are to be opened make none either: the reading goes on as it
would have without them, whatever the arguments are (`Reading.step_openingFirst`). So one more file,
named anywhere among the arguments, is one more file to open and nothing else (`AddsFile.parse`).
-/
import Mathlib.Data.List.TakeWhile
import WorkspaceSession.CommandLine.Options
import WorkspaceSession.Proofs.PathNames

set_option autoImplicit false

namespace WorkspaceSession.CommandLine

/-! ## More files to open -/

/-- The options with more files to open in front of the others. -/
def Options.openingFirst (files : List Path) (options : Options) : Options :=
  { options with openFiles := files ++ options.openFiles }

/-- A value is taken over in the same way. -/
theorem Options.take_openingFirst (files : List Path) (options : Options) (argument : Argument)
    (value : String) :
    (options.openingFirst files).take argument value
      = (options.take argument value).map (openingFirst files) := by
  unfold take openingFirst
  cases argument with
  | classpath => rfl
  | virtualDocument => rfl
  | verbose => rfl
  | help => rfl
  | version => rfl
  | openFile =>
    by_cases hvalue : value = ""
    · simp [hvalue]
      rfl
    · simp [hvalue, bind, Except.bind, Except.map, pure, Except.pure]
  | root => cases options.root? <;> by_cases hvalue : value = "" <;> simp [hvalue] <;> rfl
  | libraryDirectory =>
    cases options.libraryDirectory? <;> by_cases hvalue : value = "" <;> simp [hvalue] <;> rfl
  | settings =>
    cases options.settingsFile? <;> by_cases hvalue : value = "" <;> simp [hvalue] <;> rfl
  | format =>
    cases options.format? with
    | some format => rfl
    | none =>
      dsimp only [Option.isSome_none, bind, Except.bind]
      split_ifs <;> rfl

namespace Reading

/-- What has been read, with more files to open in front of the others. -/
def openingFirst (files : List Path) (reading : Reading) : Reading :=
  { reading with options := reading.options.openingFirst files }

variable (files : List Path) (reading : Reading)

theorem settle_openingFirst :
    (reading.openingFirst files).settle = reading.settle.map (openingFirst files) := by
  obtain ⟨options, pending?, hasOperand, onlyOperands⟩ := reading
  rw [settle, settle, openingFirst]
  cases pending? with
  | none => rfl
  | some pending =>
    obtain ⟨argument, value?⟩ := pending
    cases value? with
    | none => rfl
    | some value =>
      dsimp only
      rw [Options.take_openingFirst]
      cases options.take argument value with
      | error stop => rfl
      | ok options => rfl

/-- Behind settling, the reading goes on in the same way. -/
theorem settle_bind_openingFirst {f : Reading → Except Stop Reading}
    (hf : ∀ reading, f (reading.openingFirst files) = (f reading).map (openingFirst files)) :
    (reading.openingFirst files).settle >>= f
      = (reading.settle >>= f).map (openingFirst files) := by
  rw [settle_openingFirst]
  cases reading.settle with
  | error stop => rfl
  | ok settled => exact hf settled

theorem takeValue_openingFirst (argument : Argument) (value : String) :
    (reading.openingFirst files).takeValue argument value
      = (reading.takeValue argument value).map (openingFirst files) := by
  refine settle_bind_openingFirst files reading fun settled => ?_
  rw [openingFirst, Options.take_openingFirst]
  cases settled.options.take argument value with
  | error stop => rfl
  | ok options => rfl

theorem takeFlag_openingFirst (argument : Argument) (isLong : Bool) :
    (reading.openingFirst files).takeFlag argument isLong
      = (reading.takeFlag argument isLong).map (openingFirst files) := by
  refine settle_bind_openingFirst files reading fun settled => ?_
  have hverbose : (settled.openingFirst files).options.verbose = settled.options.verbose := rfl
  cases argument with
  | help => rfl
  | version => rfl
  | _ =>
    dsimp only
    rw [hverbose]
    split_ifs
    · rfl
    · rfl

theorem await_openingFirst (argument : Argument) :
    (reading.openingFirst files).await argument
      = (reading.await argument).map (openingFirst files) :=
  settle_bind_openingFirst files reading fun _ => rfl

theorem takeOperand_openingFirst (value : String) :
    (reading.openingFirst files).takeOperand value
      = (reading.takeOperand value).map (openingFirst files) := by
  have hoperand : (reading.openingFirst files).hasOperand = reading.hasOperand := rfl
  rw [takeOperand, takeOperand, hoperand]
  split_ifs
  · rfl
  · exact settle_bind_openingFirst files reading fun _ => rfl

theorem takeLong_openingFirst (text : List Char) :
    (reading.openingFirst files).takeLong text
      = (reading.takeLong text).map (openingFirst files) := by
  unfold takeLong
  dsimp only
  split
  · rfl
  · split_ifs
    · exact takeValue_openingFirst files reading _ _
    · rfl
  · split_ifs
    · exact await_openingFirst files reading _
    · exact takeFlag_openingFirst files reading _ true

theorem takeShort_openingFirst (names : List Char) :
    (reading.openingFirst files).takeShort names
      = (reading.takeShort names).map (openingFirst files) := by
  induction names generalizing reading with
  | nil => rfl
  | cons name rest ih =>
    rw [takeShort, takeShort]
    cases Argument.ofShort? name with
    | none => rfl
    | some argument =>
      dsimp only
      split_ifs
      · split
        · exact await_openingFirst files reading argument
        · exact takeValue_openingFirst files reading argument _
        · exact takeValue_openingFirst files reading argument _
      · rw [takeFlag_openingFirst]
        cases reading.takeFlag argument false with
        | error stop => rfl
        | ok settled => exact ih settled

theorem takeWord_openingFirst (word : String) :
    (reading.openingFirst files).takeWord word
      = (reading.takeWord word).map (openingFirst files) := by
  have hpending : (reading.openingFirst files).pending? = reading.pending? := rfl
  rw [takeWord, takeWord, hpending]
  split
  · rfl
  · exact takeOperand_openingFirst files reading word

/-- **Files to open change nothing else** about how an argument is taken. -/
theorem step_openingFirst (word : String) :
    (reading.openingFirst files).step word = (reading.step word).map (openingFirst files) := by
  have honly : (reading.openingFirst files).onlyOperands = reading.onlyOperands := rfl
  rw [step, step, honly]
  split_ifs
  · exact takeOperand_openingFirst files reading word
  · split
    · rfl
    · exact takeLong_openingFirst files reading _
    · exact takeShort_openingFirst files reading _
    · exact takeWord_openingFirst files reading word

theorem foldlM_openingFirst (arguments : List String) :
    arguments.foldlM step (reading.openingFirst files)
      = (arguments.foldlM step reading).map (openingFirst files) := by
  induction arguments generalizing reading with
  | nil => rfl
  | cons word rest ih =>
    rw [List.foldlM_cons, List.foldlM_cons, step_openingFirst]
    cases reading.step word with
    | error stop => rfl
    | ok next => exact ih next

end Reading

/-! ## Options and their values -/

/-- An option. -/
def word (argument : Argument) : String :=
  "--" ++ argument.longName

/-- An option with its value behind an equals sign. -/
def joinedWord (argument : Argument) (value : String) : String :=
  word argument ++ "=" ++ value

theorem ofLong?_longName {argument : Argument} (h : argument.takesValue = true) :
    Argument.ofLong? argument.longName = some argument := by
  revert h
  cases argument <;> decide

theorem longName_ne_nil (argument : Argument) : argument.longName.toList ≠ [] := by
  cases argument <;> decide

theorem equals_not_mem_longName (argument : Argument) : '=' ∉ argument.longName.toList := by
  cases argument <;> decide

theorem toList_word (argument : Argument) :
    (word argument).toList = '-' :: '-' :: argument.longName.toList := by
  rw [word, String.toList_append, show "--".toList = ['-', '-'] from by decide]
  rfl

theorem toList_joinedWord (argument : Argument) (value : String) :
    (joinedWord argument value).toList
      = '-' :: '-' :: (argument.longName.toList ++ '=' :: value.toList) := by
  rw [joinedWord, String.toList_append, String.toList_append, toList_word,
    show "=".toList = ['='] from by decide, List.append_assoc]
  rfl

namespace Reading

section

variable (reading : Reading) {argument : Argument} (htakes : argument.takesValue = true)
include htakes

theorem takeLong_joined (value : List Char) :
    reading.takeLong (argument.longName.toList ++ '=' :: value)
      = reading.takeValue argument (String.ofList value) := by
  have hname : (argument.longName.toList ++ '=' :: value).takeWhile (· ≠ '=')
      = argument.longName.toList := by
    rw [List.takeWhile_append_of_pos fun c hc => decide_eq_true
      (ne_of_mem_of_not_mem hc (equals_not_mem_longName argument))]
    exact (congrArg _ (List.takeWhile_cons_of_neg (by decide))).trans (List.append_nil _)
  rw [takeLong, hname, List.drop_left, String.ofList_toList, ofLong?_longName htakes]
  dsimp only
  rw [if_pos htakes]

theorem takeLong_alone :
    reading.takeLong argument.longName.toList = reading.await argument := by
  have hname : argument.longName.toList.takeWhile (· ≠ '=') = argument.longName.toList := by
    rw [List.takeWhile_eq_self_iff]
    exact fun c hc => decide_eq_true (ne_of_mem_of_not_mem hc (equals_not_mem_longName argument))
  rw [takeLong, hname, List.drop_length, String.ofList_toList, ofLong?_longName htakes]
  dsimp only
  rw [if_pos htakes]

end

theorem step_long {reading : Reading} (hoptions : reading.onlyOperands = false) {given : String}
    {text : List Char} (hgiven : given.toList = '-' :: '-' :: text) (hne : text ≠ []) :
    reading.step given = reading.takeLong text := by
  obtain ⟨first, rest, rfl⟩ := List.exists_cons_of_ne_nil hne
  rw [step, hoptions, if_neg Bool.false_ne_true, hgiven]
  rfl

theorem step_plain {reading : Reading} (hoptions : reading.onlyOperands = false) {given : String}
    (hgiven : given.toList.head? ≠ some '-') : reading.step given = reading.takeWord given := by
  rw [step, hoptions, if_neg Bool.false_ne_true]
  split
  next h => exact absurd (by rw [h]; rfl) hgiven
  next h => exact absurd (by rw [h]; rfl) hgiven
  next h => exact absurd (by rw [h]; rfl) hgiven
  next => rfl

/-- What has been read asks for the options: settling succeeds and gives them, and more options may
follow. -/
structure Asks (reading : Reading) (options : Options) : Prop where
  /-- What settling gives. -/
  settle : reading.settle = .ok { reading with options := options, pending? := none }
  /-- There has been no word that ends the options. -/
  onlyOperands : reading.onlyOperands = false

theorem Asks.parse {arguments : List String} {reading : Reading} {options : Options}
    (hread : arguments.foldlM step {} = .ok reading) (hasks : reading.Asks options) :
    parse arguments = .ok options := by
  rw [CommandLine.parse, hread]
  dsimp only [bind, Except.bind]
  rw [hasks.settle]
  rfl

/-- The operand comes first. -/
theorem asks_root {root : String} (hroot : root.toList.head? ≠ some '-') (hne : root ≠ "") :
    ∃ reading, Reading.step {} root = .ok reading
      ∧ reading.Asks { root? := some (.ofString root) } := by
  refine ⟨{ pending? := some ⟨.root, some root⟩, hasOperand := true }, ?_, ⟨?_, rfl⟩⟩
  · rw [step_plain rfl hroot]
    rfl
  · have htake : ({} : Options).take .root root = .ok { root? := some (.ofString root) } := by
      unfold Options.take
      simp [hne, bind, Except.bind, pure, Except.pure]
    rw [settle]
    dsimp only
    rw [htake]
    rfl

namespace Asks

variable {reading : Reading} {options options' : Options} (hasks : reading.Asks options)
  (argument : Argument) (htakes : argument.takesValue = true) {value : String}
  (htake : options.take argument value = .ok options')
include hasks htakes htake

/-- A value behind an equals sign is judged at once. -/
theorem step_joinedWord :
    ∃ next, reading.step (joinedWord argument value) = .ok next ∧ next.Asks options'
      ∧ next.hasOperand = reading.hasOperand := by
  refine ⟨{ reading with options := options', pending? := none }, ?_, ⟨rfl, hasks.onlyOperands⟩,
    rfl⟩
  rw [step_long hasks.onlyOperands (toList_joinedWord argument value) (by simp),
    takeLong_joined reading htakes, String.ofList_toList, takeValue, hasks.settle]
  dsimp only [bind, Except.bind]
  rw [htake]
  rfl

/-- A value in the next argument is kept back, and must not look like an option. -/
theorem step_word (hvalue : value.toList.head? ≠ some '-') :
    ∃ next, [word argument, value].foldlM step reading = .ok next ∧ next.Asks options'
      ∧ next.hasOperand = reading.hasOperand := by
  have hawait : reading.step (word argument)
      = .ok { reading with options := options, pending? := some ⟨argument, none⟩ } := by
    rw [step_long hasks.onlyOperands (toList_word argument) (longName_ne_nil argument),
      takeLong_alone reading htakes, await, hasks.settle]
    rfl
  refine ⟨{ reading with options := options, pending? := some ⟨argument, some value⟩ }, ?_,
    ⟨?_, hasks.onlyOperands⟩, rfl⟩
  · have hkept : Reading.step
        { reading with options := options, pending? := some ⟨argument, none⟩ } value
        = .ok { reading with options := options, pending? := some ⟨argument, some value⟩ } :=
      step_plain (by exact hasks.onlyOperands) hvalue
    rw [List.foldlM_cons, hawait]
    dsimp only [bind, Except.bind]
    rw [List.foldlM_cons, hkept]
    rfl
  · rw [Reading.settle]
    dsimp only
    rw [htake]
    rfl

end Asks

end Reading

/-! ## Virtual documents -/

/-- A virtual document as it is given to the command. -/
def givenDocument (document : String × String) : String :=
  document.1 ++ "=" ++ document.2

/-- The words that name virtual documents. A name that looks like an option has to stand in one
word with the option that takes it. -/
inductive NamesDocuments : List String → List (String × String) → Prop where
  /-- No words. -/
  | nil : NamesDocuments [] []
  /-- The option and its value in one word. -/
  | joined (document : String × String) {words : List String}
      {documents : List (String × String)} (h : NamesDocuments words documents) :
      NamesDocuments (joinedWord .virtualDocument (givenDocument document) :: words)
        (document :: documents)
  /-- The option, and its value in a word of its own. -/
  | apart (document : String × String) {words : List String}
      {documents : List (String × String)} (hplain : document.1.toList.head? ≠ some '-')
      (h : NamesDocuments words documents) :
      NamesDocuments (word .virtualDocument :: givenDocument document :: words)
        (document :: documents)

/-- What a name begins with, what is given begins with, if the name is one. -/
theorem head?_givenDocument {document : String × String} (hname : document.1 ≠ "") :
    (givenDocument document).toList.head? = document.1.toList.head? := by
  have hne : document.1.toList ≠ [] := fun h => hname (String.toList_eq_nil_iff.mp h)
  obtain ⟨c, rest, hc⟩ := List.exists_cons_of_ne_nil hne
  rw [givenDocument, String.toList_append, String.toList_append, hc]
  rfl

/-- Documents are asked for in the order in which they are named. -/
theorem Reading.Asks.foldlM_namesDocuments {reading : Reading} {options : Options}
    (hasks : reading.Asks options) {words : List String} {documents : List (String × String)}
    (hwords : NamesDocuments words documents) (hnames : ∀ document ∈ documents, document.1 ≠ "") :
    ∃ next, words.foldlM Reading.step reading = .ok next
      ∧ next.Asks { options with
          virtualDocuments := options.virtualDocuments ++ documents.map givenDocument } := by
  induction hwords generalizing reading options with
  | nil => exact ⟨reading, rfl, by simpa using hasks⟩
  | @joined document words documents _ ih =>
    obtain ⟨-, hrest⟩ := List.forall_mem_cons.mp hnames
    obtain ⟨next, hstep, hnext, -⟩ := hasks.step_joinedWord .virtualDocument rfl rfl
    obtain ⟨last, hlast, hasked⟩ := ih hnext hrest
    refine ⟨last, ?_, by simpa using hasked⟩
    rw [List.foldlM_cons, hstep]
    exact hlast
  | @apart document words documents hplain _ ih =>
    obtain ⟨hname, hrest⟩ := List.forall_mem_cons.mp hnames
    have hvalue := hplain
    rw [← head?_givenDocument hname] at hvalue
    obtain ⟨next, hstep, hnext, -⟩ := hasks.step_word .virtualDocument rfl rfl hvalue
    obtain ⟨last, hlast, hasked⟩ := ih hnext hrest
    refine ⟨last, ?_, by simpa using hasked⟩
    change List.foldlM Reading.step reading
      ([word .virtualDocument, givenDocument document] ++ words) = .ok last
    rw [List.foldlM_append, hstep]
    exact hlast

/-- Options that ask for a root and virtual documents only. -/
def Options.ofDocuments (root : Path) (documents : List String) : Options :=
  { root? := some root, virtualDocuments := documents }

/-- **What a root and virtual documents ask for.** -/
theorem parse_namesDocuments {root : String} (hroot : root.toList.head? ≠ some '-')
    (hne : root ≠ "") {words : List String} {documents : List (String × String)}
    (hwords : NamesDocuments words documents) (hnames : ∀ document ∈ documents, document.1 ≠ "") :
    parse (root :: words)
      = .ok (.ofDocuments (.ofString root) (documents.map givenDocument)) := by
  obtain ⟨reading, hstep, hasks⟩ := Reading.asks_root hroot hne
  obtain ⟨last, hlast, hasked⟩ := hasks.foldlM_namesDocuments hwords hnames
  refine Reading.Asks.parse ?_ hasked
  rw [List.foldlM_cons, hstep]
  exact hlast

/-! ## One more file to open -/

namespace Reading

/-- What is settled has nothing pending, and settling it again changes nothing. -/
theorem settle_of_settle {reading settled : Reading} (h : reading.settle = .ok settled) :
    settled.settle = .ok settled ∧ settled.hasOperand = reading.hasOperand
      ∧ settled.onlyOperands = reading.onlyOperands := by
  obtain ⟨options, pending?, hasOperand, onlyOperands⟩ := reading
  rw [settle] at h
  cases pending? with
  | none =>
    obtain rfl := Except.ok.inj h
    exact ⟨rfl, rfl, rfl⟩
  | some pending =>
    obtain ⟨argument, value?⟩ := pending
    cases value? with
    | none => exact nomatch h
    | some value =>
      dsimp only at h
      cases htake : options.take argument value with
      | error stop =>
        rw [htake] at h
        exact nomatch h
      | ok options =>
        rw [htake] at h
        obtain rfl := Except.ok.inj h
        exact ⟨rfl, rfl, rfl⟩

/-- That only operands may follow makes no difference to settling. -/
theorem settle_ended (reading : Reading) :
    Reading.settle { reading with onlyOperands := true }
      = reading.settle.map fun settled => { settled with onlyOperands := true } := by
  obtain ⟨options, pending?, hasOperand, onlyOperands⟩ := reading
  rw [settle, settle]
  cases pending? with
  | none => rfl
  | some pending =>
    obtain ⟨argument, value?⟩ := pending
    cases value? with
    | none => rfl
    | some value =>
      dsimp only
      cases options.take argument value with
      | error stop => rfl
      | ok options => rfl

section

variable {reading settled : Reading} (h : reading.settle = .ok settled)
include h

theorem takeValue_of_settle (argument : Argument) (value : String) :
    reading.takeValue argument value = settled.takeValue argument value := by
  rw [takeValue, takeValue, h, (settle_of_settle h).1]

theorem takeFlag_of_settle (argument : Argument) (isLong : Bool) :
    reading.takeFlag argument isLong = settled.takeFlag argument isLong := by
  rw [takeFlag, takeFlag, h, (settle_of_settle h).1]

theorem await_of_settle (argument : Argument) :
    reading.await argument = settled.await argument := by
  rw [await, await, h, (settle_of_settle h).1]

theorem takeOperand_of_settle (value : String) :
    reading.takeOperand value = settled.takeOperand value := by
  obtain ⟨hsettled, hoperand, -⟩ := settle_of_settle h
  rw [takeOperand, takeOperand, h, hsettled, hoperand]

theorem takeLong_of_settle (text : List Char) : reading.takeLong text = settled.takeLong text := by
  unfold takeLong
  simp only [takeValue_of_settle h, takeFlag_of_settle h, await_of_settle h]

theorem takeShort_of_settle (name : Char) (names : List Char) :
    reading.takeShort (name :: names) = settled.takeShort (name :: names) := by
  rw [takeShort, takeShort]
  simp only [takeValue_of_settle h, takeFlag_of_settle h, await_of_settle h]

theorem takeWord_of_settle (word : String) : reading.takeWord word = settled.takeWord word := by
  have hword : ∀ {reading : Reading}, reading.settle = .ok settled →
      reading.takeWord word = reading.takeOperand word := by
    intro reading h
    rw [takeWord]
    split
    next hpending =>
      rw [settle, hpending] at h
      exact nomatch h
    next => rfl
  rw [hword h, hword (settle_of_settle h).1, takeOperand_of_settle h]

/-- A word is taken in the same way, or ends the options and leaves all else as it was. -/
theorem step_of_settle (word : String) :
    reading.step word = settled.step word
      ∨ ∃ next next', reading.step word = .ok next ∧ settled.step word = .ok next'
          ∧ next.settle = .ok next' := by
  rw [step, step, (settle_of_settle h).2.2]
  split_ifs
  · exact Or.inl (takeOperand_of_settle h word)
  · split
    · refine Or.inr ⟨_, _, rfl, rfl, ?_⟩
      rw [settle_ended, h]
      rfl
    · exact Or.inl (takeLong_of_settle h _)
    · exact Or.inl (takeShort_of_settle h _ _)
    · exact Or.inl (takeWord_of_settle h word)

/-- **A value that is kept back may as well be settled.** -/
theorem foldlM_settle (arguments : List String) :
    arguments.foldlM step reading >>= settle = arguments.foldlM step settled >>= settle := by
  induction arguments generalizing reading settled with
  | nil => exact h.trans (settle_of_settle h).1.symm
  | cons word rest ih =>
    rw [List.foldlM_cons, List.foldlM_cons]
    rcases step_of_settle h word with heq | ⟨next, next', hnext, hnext', hsettle⟩
    · rw [heq]
    · rw [hnext, hnext']
      exact ih hsettle

end

end Reading

/-- The words that ask for a file to be opened. A path that looks like an option has to stand in one
word with the option that it belongs to. -/
inductive AsksToOpen (file : String) : List String → Prop where
  /-- The option and the path in one word. -/
  | joined : AsksToOpen file [joinedWord .openFile file]
  /-- The option, and the path in a word of its own. -/
  | apart (hplain : file.toList.head? ≠ some '-') : AsksToOpen file [word .openFile, file]

/-- The same options but for one more file to open, in any place among the others. -/
def Options.AddsFile (file : Path) (options options' : Options) : Prop :=
  ∃ earlier later, options.openFiles = earlier ++ later
    ∧ options' = { options with openFiles := earlier ++ file :: later }

/-- Arguments with one more file to open, anywhere where an option can stand. -/
structure AddsFile (file : String) (arguments arguments' : List String) : Prop where
  /-- The path of the file is not empty. -/
  named : file ≠ ""
  /-- What stands before the new words asks for something and may go on with options. -/
  added : ∃ before words after reading options, before.foldlM Reading.step {} = .ok reading
    ∧ reading.Asks options ∧ AsksToOpen file words
    ∧ arguments = before ++ after ∧ arguments' = before ++ words ++ after

theorem Reading.Asks.foldlM_asksToOpen {reading : Reading} {options : Options}
    (hasks : reading.Asks options) {file : String} (hne : file ≠ "") {words : List String}
    (hwords : AsksToOpen file words) :
    ∃ next, words.foldlM Reading.step reading = .ok next
      ∧ next.Asks { options with openFiles := options.openFiles ++ [.ofString file] }
      ∧ next.hasOperand = reading.hasOperand := by
  have htake : options.take .openFile file
      = .ok { options with openFiles := options.openFiles ++ [.ofString file] } := by
    unfold Options.take
    simp [hne, bind, Except.bind, pure, Except.pure]
  cases hwords with
  | joined =>
    obtain ⟨next, hstep, hnext⟩ := hasks.step_joinedWord .openFile rfl htake
    refine ⟨next, ?_, hnext⟩
    rw [List.foldlM_cons, hstep]
    rfl
  | apart hplain => exact hasks.step_word .openFile rfl htake hplain

/-- What stands behind some arguments is read as from the beginning, with the files to open that
have been read put in front. -/
theorem parse_append {front after : List String} {reading read : Reading} {files : List Path}
    (hfront : front.foldlM Reading.step {} = .ok reading)
    (hsettle : reading.settle = .ok (read.openingFirst files)) :
    parse (front ++ after)
      = (after.foldlM Reading.step read >>= Reading.settle).map fun last =>
          last.options.openingFirst files := by
  have hrest := Reading.foldlM_settle hsettle after
  rw [Reading.foldlM_openingFirst] at hrest
  rw [parse, List.foldlM_append, hfront]
  change (after.foldlM Reading.step reading >>= fun last => last.settle >>= fun settled =>
    pure settled.options) = _
  rw [← bind_assoc, hrest]
  cases after.foldlM Reading.step read with
  | error stop => rfl
  | ok last =>
    change (last.openingFirst files).settle.bind _ = last.settle.map _
    rw [Reading.settle_openingFirst]
    cases last.settle with
    | error stop => rfl
    | ok settled => rfl

/-- **One more file to open.** With the file added, the arguments are refused as they were without
it, or ask for the same with the file among those to open. -/
theorem AddsFile.parse {file : String} {arguments arguments' : List String}
    (h : AddsFile file arguments arguments') :
    (∃ stop, CommandLine.parse arguments = .error stop ∧ CommandLine.parse arguments' = .error stop)
      ∨ ∃ options options', CommandLine.parse arguments = .ok options
          ∧ CommandLine.parse arguments' = .ok options'
          ∧ options.AddsFile (.ofString file) options' := by
  obtain ⟨hne, before, words, after, reading, options, hbefore, hasks, hwords, rfl, rfl⟩ := h
  obtain ⟨next, hnext, hnextAsks, hoperand⟩ := hasks.foldlM_asksToOpen hne hwords
  -- What has been read before `after`, but for the files to open, is the same on both sides.
  let read : Reading := ⟨{ options with openFiles := [] }, none, reading.hasOperand, false⟩
  have hsettle : reading.settle = .ok (read.openingFirst options.openFiles) := by
    rw [hasks.settle]
    simp [read, Reading.openingFirst, Options.openingFirst, hasks.onlyOperands]
  have hsettle' : next.settle
      = .ok (read.openingFirst (options.openFiles ++ [.ofString file])) := by
    rw [hnextAsks.settle]
    simp [read, Reading.openingFirst, Options.openingFirst, hnextAsks.onlyOperands, hoperand]
  have hadded : (before ++ words).foldlM Reading.step {} = .ok next := by
    rw [List.foldlM_append, hbefore]
    exact hnext
  rw [parse_append hbefore hsettle, parse_append hadded hsettle']
  cases after.foldlM Reading.step read >>= Reading.settle with
  | error stop => exact Or.inl ⟨stop, rfl, rfl⟩
  | ok last =>
    refine Or.inr ⟨_, _, rfl, ?_, options.openFiles, last.options.openFiles, rfl, rfl⟩
    simp [Except.map, Options.openingFirst]

end WorkspaceSession.CommandLine
