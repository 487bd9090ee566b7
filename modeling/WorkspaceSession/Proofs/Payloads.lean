/-
Payloads of a client.

A payload is any JSON value, and it is read in passing: members are looked up, defaults filled in
and types checked on the way to the one list that counts. What is read is said here by a grammar
that does none of this. A section is an object, or a sequence of at most one item, and its member
has a shape of its own; both the section for this tool and the entries in it may be left out or be
`null`. Each reader is right for its shape (`readTexts_eq_ok_iff`, `readOptional_eq_ok_iff`,
`readSection_eq_ok_iff`), and so a payload is accepted if and only if it has the shape, and gives
what the shape says.

Settings and a workspace then take a payload whole or not at all. A payload that is refused, and one
that says nothing new, leave a workspace as it was, and any other one ends the session.
-/
import WorkspaceSession.Proofs.Events

set_option autoImplicit false

namespace WorkspaceSession

namespace Settings

/-! ## Shapes -/

/-- A sequence of texts. -/
def Texts (value : Json) (texts : List String) : Prop :=
  value = .array (texts.map .string)

/-- A value that may be missing or `null`. -/
inductive Optionally {α : Type} (Given : Json → α → Prop) : Option Json → Option α → Prop where
  /-- It is missing. -/
  | missing : Optionally Given none none
  /-- It is `null`. -/
  | null : Optionally Given (some .null) none
  /-- It is there. -/
  | given {value : Json} {a : α} (h : Given value a) : Optionally Given (some value) (some a)

/-- A section whose one member has a name: an object, whatever its other members are, or a sequence
of at most one item. -/
inductive Section {α : Type} (name : String) (Member : Option Json → α → Prop) :
    Json → α → Prop where
  /-- An object has its members by name. -/
  | object {members : List (String × Json)} {a : α}
      (h : Member ((Json.object members).member? name) a) : Section name Member (.object members) a
  /-- A sequence has them by place. -/
  | array {items : List Json} {a : α} (length_le : items.length ≤ 1) (h : Member items.head? a) :
      Section name Member (.array items) a

/-- A payload, and the classpath that it gives, if it gives one. -/
def Payload (payload : Json) (given? : Option (List String)) : Prop :=
  ∃ entries??, Section "groovy" (Optionally (Section "classpath" (Optionally Texts))) payload
    entries?? ∧ entries??.join = given?

theorem not_texts_null (texts : List String) : ¬Texts .null texts :=
  fun h => nomatch h

theorem not_section_null {α : Type} (name : String) (Member : Option Json → α → Prop) (a : α) :
    ¬Section name Member .null a :=
  fun h => nomatch h

/-! ## Readers -/

/-- A reading in two steps succeeds if both do. -/
theorem bind_eq_ok_iff {ε α β : Type} {x : Except ε α} {f : α → Except ε β} {b : β} :
    (x >>= f) = .ok b ↔ ∃ a, x = .ok a ∧ f a = .ok b := by
  cases x with
  | error e => exact iff_of_false (fun h => nomatch h) fun ⟨_, h, _⟩ => nomatch h
  | ok a =>
    refine ⟨fun h => ⟨a, rfl, h⟩, ?_⟩
    rintro ⟨a', ha, h⟩
    rw [Except.ok.inj ha]
    exact h

theorem map_eq_ok_iff {ε α β : Type} {x : Except ε α} {f : α → β} {b : β} :
    x.map f = .ok b ↔ ∃ a, x = .ok a ∧ f a = b := by
  cases x with
  | error e => exact iff_of_false (fun h => nomatch h) fun ⟨_, h, _⟩ => nomatch h
  | ok a => simp [Except.map]

theorem readText_eq_ok_iff (expected : String) (value : Json) (text : String) :
    readText expected value = .ok text ↔ value = .string text := by
  cases value with
  | string s => exact ⟨fun h => congrArg Json.string (Except.ok.inj h),
      fun h => congrArg Except.ok (Json.string.inj h)⟩
  | _ => exact iff_of_false (fun h => nomatch h) (fun h => nomatch h)

/-- Items are read one by one, and one that is refused is the end of it. -/
theorem mapM_readText_eq_ok_iff (expected : String) (items : List Json) (texts : List String) :
    items.mapM (readText expected) = .ok texts ↔ items = texts.map .string := by
  induction items generalizing texts with
  | nil =>
    rw [List.mapM_nil, eq_comm (a := ([] : List Json)), List.map_eq_nil_iff]
    exact ⟨fun h => (Except.ok.inj h).symm, fun h => congrArg Except.ok h.symm⟩
  | cons item rest ih =>
    rw [List.mapM_cons, bind_eq_ok_iff, eq_comm (a := item :: rest), List.map_eq_cons_iff]
    constructor
    · rintro ⟨text, hitem, hrest⟩
      obtain ⟨others, hothers, hjoined⟩ := bind_eq_ok_iff.mp hrest
      obtain rfl : text :: others = texts := Except.ok.inj hjoined
      exact ⟨text, others, rfl, ((readText_eq_ok_iff ..).mp hitem).symm,
        ((ih others).mp hothers).symm⟩
    · rintro ⟨text, others, rfl, hitem, hothers⟩
      refine ⟨text, (readText_eq_ok_iff ..).mpr hitem.symm, bind_eq_ok_iff.mpr ⟨others, ?_, rfl⟩⟩
      exact (ih others).mpr hothers.symm

theorem readTexts_eq_ok_iff (value : Json) (texts : List String) :
    readTexts value = .ok texts ↔ Texts value texts := by
  cases value with
  | array items =>
    rw [readTexts, mapM_readText_eq_ok_iff, Texts, Json.array.injEq]
  | _ => exact iff_of_false (fun h => nomatch h) (fun h => nomatch h)

section

variable {α : Type} {read : Json → Except PayloadError α} {Given : Json → α → Prop}

theorem optionally_some_iff {value : Json} (hvalue : value ≠ .null) (a? : Option α) :
    Optionally Given (some value) a? ↔ ∃ a, Given value a ∧ some a = a? := by
  constructor
  · intro h
    cases h with
    | null => exact absurd rfl hvalue
    | given h => exact ⟨_, h, rfl⟩
  · rintro ⟨a, h, rfl⟩
    exact .given h

/-- What cannot be `null` itself may be left out by it. -/
theorem readOptional_eq_ok_iff (hread : ∀ value a, read value = .ok a ↔ Given value a)
    (hnull : ∀ a, ¬Given .null a) (value : Json) (a? : Option α) :
    readOptional read value = .ok a? ↔ Optionally Given (some value) a? := by
  by_cases hvalue : value = .null
  · subst hvalue
    constructor
    · intro h
      obtain rfl : none = a? := Except.ok.inj h
      exact .null
    · intro h
      cases h with
      | null => rfl
      | given h => exact (hnull _ h).elim
  · have hgiven : readOptional read value = (read value).map some := by
      cases value with
      | null => exact absurd rfl hvalue
      | _ => rfl
    rw [hgiven, map_eq_ok_iff, optionally_some_iff hvalue]
    exact exists_congr fun a => and_congr_left fun _ => hread value a

/-- One member of a section, or the default. -/
theorem readMember_eq_ok_iff {Member : Option Json → α → Prop} {default : α}
    (hread : ∀ value a, read value = .ok a ↔ Member (some value) a)
    (hdefault : ∀ a, default = a ↔ Member none a) (member? : Option Json) (a : α) :
    (member?.elim (.ok default) read) = .ok a ↔ Member member? a := by
  cases member? with
  | none => exact (Except.ok.injEq ..).to_iff.trans (hdefault a)
  | some value => exact hread value a

/-- The member of an object is looked up by its name. -/
theorem readSection_object (expected name : String) (default : α)
    (members : List (String × Json)) :
    readSection expected name default read (.object members)
      = ((Json.object members).member? name).elim (.ok default) read := by
  simp only [readSection, readMembers, List.map_cons, List.map_nil, bind, Except.bind]
  cases (Json.object members).member? name with
  | none => rfl
  | some member =>
    dsimp only [Option.elim_some]
    cases read member with
    | error e => rfl
    | ok a => rfl

/-- The member of a sequence is its first item; that there is no other is seen to last. -/
theorem readSection_array (expected name : String) (default : α) (items : List Json) :
    readSection expected name default read (.array items)
      = (items.head?.elim (.ok default) read) >>= fun a =>
        if 1 < items.length then .error (.tooManyItems items.length) else .ok a := by
  cases items with
  | nil => rfl
  | cons item rest => rfl

/-- A section is right for its shape if its member is. -/
theorem readSection_eq_ok_iff {Member : Option Json → α → Prop} {default : α}
    (hread : ∀ value a, read value = .ok a ↔ Member (some value) a)
    (hdefault : ∀ a, default = a ↔ Member none a) (expected name : String) (value : Json) (a : α) :
    readSection expected name default read value = .ok a ↔ Section name Member value a := by
  cases value with
  | object members =>
    rw [readSection_object, readMember_eq_ok_iff hread hdefault]
    refine ⟨.object, fun h => ?_⟩
    cases h with
    | object h => exact h
  | array items =>
    rw [readSection_array, bind_eq_ok_iff]
    constructor
    · rintro ⟨a', hmember, h⟩
      by_cases hlength : 1 < items.length
      · rw [if_pos hlength] at h
        exact nomatch h
      · rw [if_neg hlength] at h
        obtain rfl := Except.ok.inj h
        exact .array (Nat.not_lt.mp hlength) ((readMember_eq_ok_iff hread hdefault ..).mp hmember)
    · intro h
      cases h with
      | array hlength h =>
        exact ⟨a, (readMember_eq_ok_iff hread hdefault ..).mpr h, if_neg (Nat.not_lt.mpr hlength)⟩
  | _ => exact iff_of_false (fun h => nomatch h) (fun h => nomatch h)

/-- A section all the more, if its member may be left out. -/
theorem readSection_optional_eq_ok_iff (hread : ∀ value a, read value = .ok a ↔ Given value a)
    (hnull : ∀ a, ¬Given .null a) (expected name : String) (value : Json) (a? : Option α) :
    readSection expected name none (readOptional read) value = .ok a?
      ↔ Section name (Optionally Given) value a? := by
  refine readSection_eq_ok_iff (readOptional_eq_ok_iff hread hnull) (fun a? => ?_) expected name
    value a?
  constructor
  · rintro rfl
    exact .missing
  · rintro ⟨⟩
    rfl

end

/-- **What is accepted.** Reading a payload succeeds on those that have the shape, and gives what
they give. -/
theorem readPayload_eq_ok_iff (payload : Json) (given? : Option (List String)) :
    readPayload payload = .ok given? ↔ Payload payload given? := by
  rw [readPayload, map_eq_ok_iff]
  refine exists_congr fun entries?? => and_congr_left fun _ => ?_
  exact readSection_optional_eq_ok_iff
    (readSection_optional_eq_ok_iff readTexts_eq_ok_iff not_texts_null _ _)
    (not_section_null _ _) _ _ payload entries??

/-! ## Taking a payload -/

/-- The settings after a payload; one that is refused leaves them. -/
def afterPayload (settings : Settings) (payload : Json) : Settings :=
  match settings.apply payload with
  | .ok (after, _) => after
  | .error _ => settings

/-- The entries that a payload gives replace those there are, and nothing else is replaced. -/
theorem apply_eq_ok_iff (settings after : Settings) (payload : Json) (changed : Bool) :
    settings.apply payload = .ok (after, changed)
      ↔ ∃ given?, Payload payload given?
        ∧ after = { settings with classpath := given?.getD settings.classpath }
        ∧ (changed = true ↔ after.classpath ≠ settings.classpath) := by
  rw [apply, map_eq_ok_iff]
  refine exists_congr fun given? => and_congr (readPayload_eq_ok_iff payload given?) ?_
  cases given? with
  | none =>
    simp only [Prod.mk.injEq, Option.getD_none]
    constructor
    · rintro ⟨rfl, rfl⟩
      simp
    · rintro ⟨rfl, h⟩
      simpa using h
  | some classpath =>
    simp only [Option.getD_some]
    split_ifs with hsame
    · simp only [Prod.mk.injEq]
      constructor
      · rintro ⟨rfl, rfl⟩
        simp [hsame]
      · rintro ⟨rfl, h⟩
        simpa [hsame] using h
    · simp only [Prod.mk.injEq]
      constructor
      · rintro ⟨rfl, rfl⟩
        simp [hsame]
      · rintro ⟨rfl, h⟩
        simpa [hsame] using h

/-- A payload that has the shape is taken. -/
theorem exists_apply_eq_ok_iff (settings : Settings) (payload : Json) :
    (∃ answer, settings.apply payload = .ok answer) ↔ ∃ given?, Payload payload given? := by
  constructor
  · rintro ⟨⟨after, changed⟩, h⟩
    obtain ⟨given?, hgiven, -⟩ := (apply_eq_ok_iff settings after payload changed).mp h
    exact ⟨given?, hgiven⟩
  · rintro ⟨given?, hgiven⟩
    exact ⟨_, (apply_eq_ok_iff settings _ payload (decide _)).mpr
      ⟨given?, hgiven, rfl, decide_eq_true_iff⟩⟩

/-- A payload gives at most one classpath. -/
theorem Payload.unique {payload : Json} {given? given'? : Option (List String)}
    (h : Payload payload given?) (h' : Payload payload given'?) : given? = given'? :=
  Except.ok.inj (((readPayload_eq_ok_iff payload given?).mpr h).symm.trans
    ((readPayload_eq_ok_iff payload given'?).mpr h'))

/-- A second time, a payload says nothing new. -/
theorem apply_again {settings after : Settings} {payload : Json} {changed : Bool}
    (h : settings.apply payload = .ok (after, changed)) :
    after.apply payload = .ok (after, false) := by
  obtain ⟨given?, hgiven, rfl, -⟩ := (apply_eq_ok_iff settings after payload changed).mp h
  rw [apply_eq_ok_iff]
  refine ⟨given?, hgiven, ?_, by simp⟩
  cases given? with
  | none => rfl
  | some classpath => rfl

theorem afterPayload_of_refused {settings : Settings} {payload : Json}
    (h : ∀ given?, ¬Payload payload given?) : settings.afterPayload payload = settings := by
  rw [afterPayload]
  cases happly : settings.apply payload with
  | error e => rfl
  | ok answer =>
    obtain ⟨given?, hgiven⟩ := (exists_apply_eq_ok_iff settings payload).mp ⟨answer, happly⟩
    exact (h given? hgiven).elim

end Settings

namespace Workspace

/-- **Whole or not at all.** Whatever the settings, a payload is accepted if and only if it has the
shape. Then the entries that it gives take the place of those there are, it is said to change the
classpath if and only if it does, and given again it changes nothing; otherwise the settings stay. A
workspace stays as it is, settings, stage and session, unless its settings change, and then it
stores them and is left without a session. -/
theorem withPayload_wholly (payload : Json) :
    (∀ settings : Settings,
      ((∃ answer, settings.apply payload = .ok answer) ↔ ∃ given?, Settings.Payload payload given?)
      ∧ (∀ given?, Settings.Payload payload given? → ∃ after changed,
          settings.apply payload = .ok (after, changed)
          ∧ settings.afterPayload payload = after
          ∧ after.classpath = given?.getD settings.classpath
          ∧ after.libraryDirectory? = settings.libraryDirectory?
          ∧ (changed = true ↔ after.classpath ≠ settings.classpath)
          ∧ after.apply payload = .ok (after, false))
      ∧ ((∀ given?, ¬Settings.Payload payload given?) → settings.afterPayload payload = settings))
    ∧ ∀ workspace : Workspace,
      (∀ e, workspace.settings.apply payload = .error e →
        workspace.withPayload payload = .error e
        ∧ (Event.withPayload payload).onWorkspace workspace = workspace)
      ∧ (∀ after, workspace.settings.apply payload = .ok (after, false) →
          workspace.withPayload payload = .ok (workspace, false)
          ∧ (Event.withPayload payload).onWorkspace workspace = workspace)
      ∧ ∀ after, workspace.settings.apply payload = .ok (after, true) →
          workspace.withPayload payload = .ok (⟨after, workspace.stage.discard⟩, true)
          ∧ (Event.withPayload payload).onWorkspace workspace = ⟨after, workspace.stage.discard⟩
          ∧ ((Event.withPayload payload).onWorkspace workspace).session? = none := by
  refine ⟨fun settings => ⟨Settings.exists_apply_eq_ok_iff settings payload,
    fun given? hgiven => ?_, Settings.afterPayload_of_refused⟩, fun workspace => ?_⟩
  · obtain ⟨⟨after, changed⟩, happly⟩ :=
      (Settings.exists_apply_eq_ok_iff settings payload).mpr ⟨given?, hgiven⟩
    obtain ⟨given'?, hgiven', hafter, hchanged⟩ :=
      (Settings.apply_eq_ok_iff settings after payload changed).mp happly
    obtain rfl := hgiven.unique hgiven'
    refine ⟨after, changed, happly, ?_, ?_, ?_, hchanged, Settings.apply_again happly⟩
    · rw [Settings.afterPayload, happly]
    · rw [hafter]
    · rw [hafter]
  · -- The workspace adds nothing of its own: each answer of the settings is carried over.
    refine ⟨fun e happly => ?_, fun after happly => ?_, fun after happly => ?_⟩
    · have hwith : workspace.withPayload payload = .error e := by
        rw [withPayload, happly]
        rfl
      exact ⟨hwith, by rw [Event.onWorkspace, hwith]⟩
    · have hwith : workspace.withPayload payload = .ok (workspace, false) := by
        rw [withPayload, happly]
        rfl
      exact ⟨hwith, by rw [Event.onWorkspace, hwith]⟩
    · have hwith : workspace.withPayload payload
          = .ok (⟨after, workspace.stage.discard⟩, true) := by
        rw [withPayload, happly]
        rfl
      have hafter : (Event.withPayload payload).onWorkspace workspace
          = ⟨after, workspace.stage.discard⟩ := by rw [Event.onWorkspace, hwith]
      exact ⟨hwith, hafter, Event.session?_of_stage_eq_discard (congrArg stage hafter)⟩

/-- Sequences for both sections, sent to a workspace with a session: the entry is stored and the
session is gone. One item more in the section, and the payload is refused. -/
theorem withPayload_wholly_sequences :
    let settings : Settings := ⟨["lib/b.jar"], some (.ofString "/opt")⟩
    let after : Settings := ⟨["lib/a.jar"], some (.ofString "/opt")⟩
    let workspace : Workspace := ⟨settings, .active (.empty (.ofClasspath ⟨[]⟩))⟩
    let entries : Json := .array [.string "lib/a.jar"]
    let payload : Json := .object [("editor", .null), ("groovy", .array [entries])]
    let longer : Json := .object [("groovy", .array [entries, .null])]
    settings.apply payload = .ok (after, true) ∧ after.apply payload = .ok (after, false)
      ∧ workspace.withPayload payload = .ok (⟨after, .discarded⟩, true)
      ∧ settings.afterPayload longer = settings := by
  intro settings after workspace entries payload longer
  have hgiven : Settings.Payload payload (some ["lib/a.jar"]) :=
    ⟨some (some ["lib/a.jar"]), .object (.given (.array (Nat.le_refl 1) (.given rfl))), rfl⟩
  obtain ⟨hsettings, hworkspace⟩ := withPayload_wholly payload
  obtain ⟨found, changed, happly, -, hclasspath, hdirectory, hchanged, hagain⟩ :=
    (hsettings settings).2.1 _ hgiven
  obtain rfl : found = after := by
    cases found
    exact congrArg₂ Settings.mk hclasspath hdirectory
  obtain rfl : changed = true := hchanged.mpr (by decide)
  refine ⟨happly, hagain, ((hworkspace workspace).2.2 _ happly).1, ?_⟩
  refine ((withPayload_wholly longer).1 settings).2.2 fun given? hlonger => ?_
  obtain ⟨section?, hsection, -⟩ : Settings.Payload
      (.object [("groovy", .array [.array [.string "lib/a.jar"], .null])]) given? := hlonger
  cases hsection with
  | object h =>
    -- The member is the sequence of two items, which is too long for a section.
    have hmember : Settings.Optionally (Settings.Section "classpath"
        (Settings.Optionally Settings.Texts))
        (some (.array [.array [.string "lib/a.jar"], .null])) section? := h
    cases hmember with
    | given hgiven =>
      cases hgiven with
      | array hlength => exact absurd hlength (by decide)

end Workspace

end WorkspaceSession
