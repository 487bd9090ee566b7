/-
URLs that read back.

Reading a text as a URL may change it: dots are resolved, drive letters begin a path anew, breaks
are dropped and what a part cannot hold is escaped. The path of a file's URL suffers none of this,
under any scheme and whatever bytes the names are made of, as long as the file's path goes up
nowhere. Its segments are names, written so that nothing of them is escaped again
(`encodeText_encode`), and an escaped name is a dot only if the name is one, because decoding gives
the name back (`Settled.ofName`). A drive letter is looked for in the first segment only, and in the
URL of a file an empty one comes first. So the path is read onto the stack segment by segment as it
stands (`PathState.read_plain`, `PathState.read_file`), and the whole text is a URL that is itself
(`parse_fileText`, `parse_plainText`).
-/
import WorkspaceSession.Proofs.VirtualDocuments

set_option autoImplicit false

namespace WorkspaceSession

/-- Parts that hold no separator are the parts of what they are written in, each but the first one
behind a separator. -/
theorem Text.splitWhere_flatMap {α : Type} {isSeparator : α → Bool} {a : α} (first : List α)
    (ha : isSeparator a = true) {rest : List (List α)}
    (h : ∀ part ∈ first :: rest, ∀ c ∈ part, isSeparator c = false) :
    splitWhere isSeparator (first ++ rest.flatMap (a :: ·)) = first :: rest := by
  induction rest generalizing first with
  | nil =>
    rw [List.flatMap_nil, List.append_nil]
    exact splitWhere_eq_singleton (h first List.mem_cons_self)
  | cons second rest ih =>
    obtain ⟨hfirst, hrest⟩ := List.forall_mem_cons.mp h
    rw [List.flatMap_cons, List.cons_append, splitWhere_append_cons ha, ih second hrest,
      splitWhere_eq_singleton hfirst]
    rfl

namespace Url

/-! ## Escaped bytes -/

namespace Percent

/-- What bytes are escaped into: literal characters that are not reserved, percent signs and
digits. -/
theorem cases_of_mem_encode {reserved : Reserved} {bytes : Bytes} {c : Char}
    (h : c ∈ encode reserved bytes) :
    (c.toNat < 0x80 ∧ reserved c = false) ∨ c = '%' ∨ ∃ n : Fin 16, c = hexDigit n := by
  obtain ⟨b, -, hc⟩ := List.mem_flatMap.mp h
  have hb : b.toNat < 256 := b.toNat_lt
  rw [encodeByte] at hc
  split_ifs at hc with hliteral
  · rw [Bool.and_eq_true, decide_eq_true_eq, Bool.not_eq_true'] at hliteral
    obtain ⟨hascii, hallowed⟩ := hliteral
    rw [List.mem_singleton.mp hc]
    have hnat : (Char.ofNat b.toNat).toNat = b.toNat := by
      have hvalid : b.toNat.isValidChar := Or.inl (by omega)
      rw [Char.ofNat, dif_pos hvalid]
      rfl
    exact Or.inl ⟨hnat.trans_lt hascii, hallowed⟩
  · simp only [List.mem_cons, List.not_mem_nil, or_false] at hc
    rcases hc with rfl | rfl | rfl
    · exact Or.inr (Or.inl rfl)
    · exact Or.inr (Or.inr ⟨⟨b.toNat / 16, by omega⟩, rfl⟩)
    · exact Or.inr (Or.inr ⟨⟨b.toNat % 16, by omega⟩, rfl⟩)

/-- A test that fails on percent signs, digits and what a segment can hold fails on all that a
segment is written with. -/
theorem eq_false_of_mem_encode (test : Char → Bool)
    (hliteral : ∀ n : Fin 128, segment (Char.ofNat n) = false → test (Char.ofNat n) = false)
    (hsign : test '%' = false) (hdigit : ∀ n : Fin 16, test (hexDigit n) = false) {bytes : Bytes} :
    ∀ c ∈ encode segment bytes, test c = false := by
  intro c hc
  rcases cases_of_mem_encode hc with ⟨hascii, hallowed⟩ | rfl | ⟨n, rfl⟩
  · have hback : Char.ofNat c.toNat = c := Char.ofNat_toNat c
    have htest := hliteral ⟨c.toNat, hascii⟩
    rw [hback] at htest
    exact htest hallowed
  · exact hsign
  · exact hdigit n

/-- Characters that stand for themselves are not escaped. -/
theorem encodeText_eq_self {reserved : Reserved} {cs : List Char}
    (h : ∀ c ∈ cs, c.toNat < 0x80 ∧ reserved c = false) : encodeText reserved cs = cs := by
  induction cs with
  | nil => rfl
  | cons c rest ih =>
    obtain ⟨⟨hascii, hallowed⟩, hrest⟩ := List.forall_mem_cons.mp h
    have hone : encode reserved (Text.Utf8.encodeChar c) = [c] := by
      have hnat : c.toNat.toUInt8.toNat = c.toNat := by
        rw [Nat.toUInt8, UInt8.toNat_ofNat']
        omega
      rw [Text.Utf8.encodeChar_of_lt hascii, encode, List.flatMap_singleton, encodeByte, hnat,
        Char.ofNat_toNat, hallowed]
      simp [hascii]
    have hcons : encodeText reserved (c :: rest)
        = encode reserved (Text.Utf8.encodeChar c) ++ encodeText reserved rest := by
      rw [encodeText, encode, Text.Utf8.encode, List.flatMap_cons, List.flatMap_append]
      rfl
    rw [hcons, hone, ih hrest]
    rfl

/-- What is escaped for a segment is not escaped again. -/
theorem encodeText_encode (bytes : Bytes) :
    encodeText path (encode segment bytes) = encode segment bytes := by
  refine encodeText_eq_self fun c hc => ?_
  have hascii := eq_false_of_mem_encode (fun c => !decide (c.toNat < 0x80)) (by decide)
    (by decide) (by decide) c hc
  have hallowed := eq_false_of_mem_encode path (by decide) (by decide) (by decide) c hc
  exact ⟨by simpa using hascii, hallowed⟩

end Percent

/-! ## Segments that stay -/

/-- A segment that reading leaves as it stands: it is no dot, and nothing in it is dropped, escaped
or a separator. -/
structure Settled (segment : List Char) : Prop where
  /-- Nothing is dropped or escaped. -/
  unescaped : Percent.encodeText Percent.path (withoutBreaks segment) = segment
  /-- The segment is no `.`. -/
  not_singleDot : isSingleDot segment = false
  /-- The segment is no `..`. -/
  not_doubleDot : isDoubleDot segment = false
  /-- The segment is one. -/
  not_slash : ∀ kind, ∀ c ∈ segment, isSlash kind c = false

theorem settled_nil : Settled [] :=
  ⟨rfl, by decide, by decide, fun _ _ hc => absurd hc List.not_mem_nil⟩

/-- Escaped bytes are none of a few texts that decode to other bytes. -/
theorem encode_ne_of_decode_ne {bytes : Bytes} {special : List Char}
    (h : Percent.decode (Text.Utf8.encode special) ≠ bytes) :
    Percent.encode Percent.segment bytes ≠ special := by
  rintro rfl
  exact h (Percent.reads_encode rfl bytes).decode_eq

/-- **A name stays.** -/
theorem Settled.ofName {name : Bytes} (h : Path.IsEntryName name) :
    Settled (Percent.encode Percent.segment name) := by
  obtain ⟨-, -, hdot, hdots⟩ := h
  have hbreak : ∀ c ∈ Percent.encode Percent.segment name, isBreak c = false :=
    Percent.eq_false_of_mem_encode isBreak (by decide) (by decide) (by decide)
  refine ⟨?_, ?_, ?_, ?_⟩
  · have hwithout : withoutBreaks (Percent.encode Percent.segment name)
        = Percent.encode Percent.segment name := by
      rw [withoutBreaks, List.filter_eq_self]
      intro c hc
      rw [hbreak c hc]
      rfl
    rw [hwithout, Percent.encodeText_encode]
  · rw [isSingleDot, List.any_eq_false]
    intro special hspecial
    have hdecoded : ∀ s ∈ [".", "%2e", "%2E"],
        Percent.decode (Text.Utf8.encode s.toList) = [Path.dot] := by
      decide
    simpa using encode_ne_of_decode_ne ((hdecoded special hspecial).trans_ne hdot.symm)
  · rw [isDoubleDot, List.any_eq_false]
    intro special hspecial
    have hdecoded : ∀ s ∈ ["..", "%2e.", "%2E.", ".%2e", ".%2E", "%2e%2e", "%2e%2E", "%2E%2e",
        "%2E%2E"], Percent.decode (Text.Utf8.encode s.toList) = [Path.dot, Path.dot] := by
      decide
    simpa using encode_ne_of_decode_ne ((hdecoded special hspecial).trans_ne hdots.symm)
  · intro kind
    cases kind with
    | file => exact Percent.eq_false_of_mem_encode _ (by decide) (by decide) (by decide)
    | special => exact Percent.eq_false_of_mem_encode _ (by decide) (by decide) (by decide)
    | plain => exact Percent.eq_false_of_mem_encode _ (by decide) (by decide) (by decide)

namespace PathState

variable {kind : SchemeKind} {state : PathState} {segment : List Char}

/-- Only the first segment of a file's path may be a drive letter. -/
theorem push_of_settled (hstate : kind = .plain ∨ state.segments ≠ []) (h : Settled segment) :
    state.push kind segment = { state with segments := state.segments ++ [segment] } := by
  rw [push, h.not_doubleDot, h.not_singleDot, if_neg Bool.false_ne_true,
    if_neg Bool.false_ne_true, if_neg]
  rintro ⟨rfl, hempty, -⟩
  exact hstate.elim (fun hkind => absurd hkind (by decide)) fun hne => hne hempty

theorem pushLast_of_settled (hstate : kind = .plain ∨ state.segments ≠ []) (h : Settled segment) :
    state.pushLast kind segment = { state with segments := state.segments ++ [segment] } := by
  rw [pushLast, push_of_settled hstate h, h.not_doubleDot, h.not_singleDot]
  rfl

theorem pushDivided?_eq_none (hstate : kind = .plain ∨ state.segments ≠ []) (raw : List Char) :
    state.pushDivided? kind raw = none := by
  rw [pushDivided?, if_neg]
  rintro ⟨rfl, hempty⟩
  exact hstate.elim (fun hkind => absurd hkind (by decide)) fun hne => hne hempty

/-- Segments that stay are put on the stack one by one. -/
theorem foldl_settled {segments : List (List Char)} (hstate : kind = .plain ∨ state.segments ≠ [])
    (h : ∀ segment ∈ segments, Settled segment) :
    segments.foldl (fun state raw => (state.pushDivided? kind raw).getD
        (state.push kind (Percent.encodeText Percent.path (withoutBreaks raw)))) state
      = { state with segments := state.segments ++ segments } := by
  induction segments generalizing state with
  | nil => rw [List.foldl_nil, List.append_nil]
  | cons segment rest ih =>
    obtain ⟨hsegment, hrest⟩ := List.forall_mem_cons.mp h
    rw [List.foldl_cons, pushDivided?_eq_none hstate, Option.getD_none, hsegment.unescaped,
      push_of_settled hstate hsegment, ih (hstate.imp_right fun _ => by simp) hrest,
      List.append_assoc]
    rfl

/-- Segments that stay are read as they stand. Drive letters are no matter below a scheme that knows
none, and behind a first segment; the first one is not among these. -/
theorem read_of_settled (front : List (List Char)) {segments : List (List Char)} {raw : List Char}
    (hparts : Text.splitWhere (isSlash kind) raw = front ++ segments) (hne : segments ≠ [])
    (hfront : front.foldl (fun (state : PathState) raw => (state.pushDivided? kind raw).getD
        (state.push kind (Percent.encodeText Percent.path (withoutBreaks raw)))) ⟨[], false⟩
      = ⟨front, false⟩)
    (hstate : kind = .plain ∨ front ≠ []) (h : ∀ segment ∈ segments, Settled segment) :
    PathState.read kind ⟨[], false⟩ raw = ⟨front ++ segments, false⟩ := by
  obtain rfl | ⟨inner, last, rfl⟩ := segments.eq_nil_or_concat
  · exact absurd rfl hne
  rw [List.concat_eq_append, List.forall_mem_append, List.forall_mem_singleton] at h
  rw [List.concat_eq_append, ← List.append_assoc] at hparts ⊢
  have hinner : kind = .plain ∨ (⟨front ++ inner, false⟩ : PathState).segments ≠ [] :=
    hstate.imp_right fun hfront => by simp [hfront]
  rw [read, hparts, List.getLast?_concat, List.dropLast_concat]
  dsimp only
  rw [List.foldl_append, hfront, foldl_settled hstate h.1, pushDivided?_eq_none hinner,
    Option.getD_none, h.2.unescaped, pushLast_of_settled hinner h.2]

/-- Below a scheme that is not special, a path is read from behind its first slash. -/
theorem read_plain {first : List Char} {rest : List (List Char)}
    (h : ∀ segment ∈ first :: rest, Settled segment) :
    PathState.read .plain ⟨[], false⟩ (first ++ rest.flatMap ('/' :: ·))
      = ⟨first :: rest, false⟩ :=
  read_of_settled [] (Text.splitWhere_flatMap first rfl fun segment hsegment =>
    (h segment hsegment).not_slash .plain) (List.cons_ne_nil first rest) rfl (Or.inl rfl) h

/-- In the URL of a file it is read from its first slash, and so behind an empty segment. -/
theorem read_file {segments : List (List Char)} (hne : segments ≠ [])
    (h : ∀ segment ∈ segments, Settled segment) :
    PathState.read .file ⟨[], false⟩ (pathText segments) = ⟨[] :: segments, false⟩ :=
  read_of_settled [[]] (Text.splitWhere_flatMap [] rfl
    (List.forall_mem_cons.mpr ⟨settled_nil.not_slash .file, fun segment hsegment =>
      (h segment hsegment).not_slash .file⟩)) hne rfl (Or.inr (List.cons_ne_nil _ _)) h

end PathState

/-! ## The path of a file's URL -/

/-- The segments of the path of a file's URL. The root has an empty one. -/
def segmentsOfFile (path : Path) : List (List Char) :=
  match path.components.drop 1 with
  | [] => [[]]
  | components => components.map segmentOfComponent

theorem segmentsOfFile_ne_nil (path : Path) : segmentsOfFile path ≠ [] := by
  rw [segmentsOfFile]
  cases path.components.drop 1 with
  | nil => exact List.cons_ne_nil _ _
  | cons component rest => exact List.cons_ne_nil _ _

theorem filePath_eq_pathText (path : Path) : filePath path = pathText (segmentsOfFile path) := by
  rw [filePath, segmentsOfFile]
  cases path.components.drop 1 with
  | nil => rfl
  | cons component rest => exact (List.flatMap_map ..).symm

section

variable {path : Path} (habsolute : path.isAbsolute = true)
  (hnamed : Path.Component.parent ∉ path.components)
include habsolute hnamed

/-- What a path that goes up nowhere has behind its root are names. -/
theorem exists_entryName_of_mem {component : Path.Component}
    (h : component ∈ path.components.drop 1) :
    ∃ name, component = .name name ∧ Path.IsEntryName name := by
  obtain ⟨hseparator, hmeans⟩ := Path.isPlain_of_mem_components habsolute h
  rw [Path.Component.ofSegment] at hmeans
  split_ifs at hmeans with hempty hparent
  · rw [← Option.some.inj hmeans] at h
    exact (hnamed (List.drop_subset _ _ h)).elim
  · exact ⟨component.segment, (Option.some.inj hmeans).symm, fun h => hempty (Or.inl h), hseparator,
      fun h => hempty (Or.inr h), hparent⟩

theorem settled_of_mem_segmentsOfFile : ∀ segment ∈ segmentsOfFile path, Settled segment := by
  have hnames := fun component => @exists_entryName_of_mem path habsolute hnamed component
  rw [segmentsOfFile]
  cases hcomponents : path.components.drop 1 with
  | nil => exact List.forall_mem_singleton.mpr settled_nil
  | cons component rest =>
    rw [hcomponents] at hnames
    intro segment hsegment
    obtain ⟨c, hc, rfl⟩ := List.mem_map.mp hsegment
    obtain ⟨name, rfl, hname⟩ := hnames c hc
    exact .ofName hname

/-- Of the empty segments in front, the root keeps one. -/
theorem filePathText_segmentsOfFile : filePathText ([] :: segmentsOfFile path) = filePath path := by
  have hnames := fun component => @exists_entryName_of_mem path habsolute hnamed component
  rw [filePath_eq_pathText, segmentsOfFile]
  cases hcomponents : path.components.drop 1 with
  | nil => rfl
  | cons component rest =>
    rw [hcomponents] at hnames
    obtain ⟨name, rfl, hname⟩ := hnames component List.mem_cons_self
    have hfirst : segmentOfComponent (.name name) ≠ [] := encode_ne_of_decode_ne hname.1.symm
    rw [filePathText, List.dropWhile_cons_of_pos (by simp)]
    dsimp only
    rw [List.map_cons, List.dropWhile_cons_of_neg (by simpa using hfirst)]

/-- A test that fails on slashes and on what a segment is written with fails on a whole path. -/
theorem eq_false_of_mem_filePath (test : Char → Bool) (hslash : test '/' = false)
    (hliteral : ∀ n : Fin 128, Percent.segment (Char.ofNat n) = false →
      test (Char.ofNat n) = false)
    (hsign : test '%' = false) (hdigit : ∀ n : Fin 16, test (Percent.hexDigit n) = false) :
    ∀ c ∈ filePath path, test c = false := by
  intro c hc
  rw [filePath] at hc
  split at hc
  · rw [List.mem_singleton.mp hc]
    exact hslash
  · obtain ⟨component, hcomponent, hc⟩ := List.mem_flatMap.mp hc
    rcases List.mem_cons.mp hc with rfl | hc
    · exact hslash
    · obtain ⟨name, rfl, -⟩ := exists_entryName_of_mem habsolute hnamed hcomponent
      exact Percent.eq_false_of_mem_encode test hliteral hsign hdigit c hc

end

/-! ## Whole texts -/

theorem trim_eq_self {cs : List Char} (h : ∀ c ∈ cs, isSpaceOrControl c = false) :
    trim cs = cs := by
  have hkept : ∀ {l : List Char}, (∀ c ∈ l, isSpaceOrControl c = false) →
      l.dropWhile isSpaceOrControl = l := by
    intro l hl
    cases l with
    | nil => rfl
    | cons c rest => exact List.dropWhile_cons_of_neg (by simp [hl c List.mem_cons_self])
  rw [trim, hkept h, hkept fun c hc => h c (List.mem_reverse.mp hc), List.reverse_reverse]

theorem untilQuery_filePath (path : Path) : untilQuery (filePath path) = filePath path := by
  rw [untilQuery, List.takeWhile_eq_self_iff]
  intro c hc
  rw [not_endsPath_of_mem_filePath hc]
  rfl

section

variable {path : Path} (habsolute : path.isAbsolute = true)
  (hnamed : Path.Component.parent ∉ path.components)
include habsolute hnamed

theorem afterFileHost_filePath :
    afterFileHost [] ⟨[], false⟩ (filePath path) = '/' :: '/' :: filePath path := by
  have hread := PathState.read_file (segmentsOfFile_ne_nil path)
    (settled_of_mem_segmentsOfFile habsolute hnamed)
  rw [← filePath_eq_pathText] at hread
  rw [afterFileHost, untilQuery_filePath, hread, List.drop_length]
  dsimp only
  rw [filePathText_segmentsOfFile habsolute hnamed]
  exact congrArg ('/' :: '/' :: ·) (List.append_nil _)

/-- **The URL of a file reads back as itself.** -/
theorem parse_fileText :
    Url.parse (String.ofList ("file://".toList ++ filePath path))
      = .ok ⟨String.ofList ("file://".toList ++ filePath path)⟩ := by
  obtain ⟨rest, hslash⟩ := exists_filePath_eq_cons path
  have htrim : trim ("file://".toList ++ filePath path) = "file://".toList ++ filePath path :=
    trim_eq_self (List.forall_mem_append.mpr ⟨Text.forall_eq_false (by decide),
      eq_false_of_mem_filePath habsolute hnamed _ (by decide) (by decide) (by decide)
        (by decide)⟩)
  have hscheme : takeScheme? ("file://".toList ++ filePath path)
      = some ("file".toList, '/' :: '/' :: filePath path) := rfl
  have hafter : afterFileScheme ('/' :: '/' :: filePath path)
      = .ok (afterFileHost [] ⟨[], false⟩ (filePath path)) := by
    rw [hslash]
    rfl
  rw [parse, String.toList_ofList, htrim, hscheme]
  dsimp only
  rw [show SchemeKind.of "file".toList = .file from by decide, hafter,
    afterFileHost_filePath habsolute hnamed]
  rfl

/-- What stands behind the authority of a virtual document's URL. -/
theorem takePath_filePath : takePath .plain (filePath path) = (filePath path, []) := by
  obtain ⟨first, rest, hsegments⟩ := List.exists_cons_of_ne_nil (segmentsOfFile_ne_nil path)
  have hsettled := settled_of_mem_segmentsOfFile habsolute hnamed
  rw [hsegments] at hsettled
  have htext : filePath path = '/' :: (first ++ rest.flatMap ('/' :: ·)) := by
    rw [filePath_eq_pathText, hsegments]
    rfl
  have hslash : withoutSlash .plain (filePath path) = first ++ rest.flatMap ('/' :: ·) := by
    rw [htext]
    rfl
  have hne : ¬(SchemeKind.plain = .plain ∧ filePath path = []) := by
    rw [htext]
    exact fun h => List.cons_ne_nil _ _ h.2
  rw [takePath, untilQuery_filePath, if_neg hne, hslash, PathState.read_plain hsettled,
    List.drop_length, htext]
  rfl

/-- **So does the same text below the scheme of virtual documents.** -/
theorem parse_virtualText :
    Url.parse (String.ofList ((virtualScheme ++ "://").toList ++ filePath path))
      = .ok ⟨String.ofList ((virtualScheme ++ "://").toList ++ filePath path)⟩ := by
  obtain ⟨rest, hslash⟩ := exists_filePath_eq_cons path
  have htrim : trim ((virtualScheme ++ "://").toList ++ filePath path)
      = (virtualScheme ++ "://").toList ++ filePath path :=
    trim_eq_self (List.forall_mem_append.mpr ⟨Text.forall_eq_false (by decide),
      eq_false_of_mem_filePath habsolute hnamed _ (by decide) (by decide) (by decide)
        (by decide)⟩)
  have hscheme : takeScheme? ((virtualScheme ++ "://").toList ++ filePath path)
      = some (virtualScheme.toList, '/' :: '/' :: filePath path) := rfl
  have hbreaks : withoutBreaks ('/' :: '/' :: filePath path) = '/' :: '/' :: filePath path := by
    rw [withoutBreaks, List.filter_eq_self]
    have hnone := eq_false_of_mem_filePath habsolute hnamed isBreak (by decide) (by decide)
      (by decide) (by decide)
    refine List.forall_mem_cons.mpr ⟨by decide, List.forall_mem_cons.mpr ⟨by decide, ?_⟩⟩
    intro c hc
    rw [hnone c hc]
    rfl
  have hauthority : takeAuthority .plain virtualScheme.toList (filePath path)
      = .ok ([], filePath path) := by
    rw [hslash]
    rfl
  have hafter : afterPlainScheme virtualScheme.toList ('/' :: '/' :: filePath path)
      = .ok ('/' :: '/' :: filePath path) := by
    rw [afterPlainScheme, afterDoubleSlash, hauthority]
    dsimp only [bind, Except.bind]
    rw [takePath_filePath habsolute hnamed]
    exact congrArg (fun text => Except.ok ('/' :: '/' :: text)) (List.append_nil _)
  rw [parse, String.toList_ofList, htrim, hscheme]
  dsimp only
  rw [show SchemeKind.of virtualScheme.toList = .plain from by decide, hbreaks, hafter]
  rfl

end

end Url

end WorkspaceSession
