/-
The last segment of a file's path.

A path is read segment by segment onto a stack that dots take from, that a drive letter begins anew
and that a break behind a drive letter replaces altogether. None of this reaches a last segment that
ends in the source extension: it is no dot and no drive letter, and where a break divides it the
extension is in the part behind. So it stands at the end of the stack as it was written, apart from
what is escaped in front of the extension (`PathState.exists_segments_read_append_ending`). And what
is on the stack ends no path (`PathState.Unended`), so the path that is read back from the text is
the one that was written.
-/
import WorkspaceSession.Proofs.FileLocations
import WorkspaceSession.Proofs.HostTexts

set_option autoImplicit false

namespace WorkspaceSession

/-! ## Endings -/

namespace Text

variable {α : Type}

/-- An ending without an element lies behind that element. -/
theorem isSuffix_of_isSuffix_cons {ending l rest : List α} {a : α} (h : ending <:+ l)
    (hrest : a :: rest <:+ l) (ha : a ∉ ending) : ending <:+ rest := by
  rcases List.suffix_or_suffix_of_suffix h hrest with hbehind | hbefore
  · rcases List.suffix_cons_iff.mp hbehind with rfl | hbehind
    · exact absurd List.mem_cons_self ha
    · exact hbehind
  · exact absurd (hbefore.subset List.mem_cons_self) ha

/-- An ending without a separator is the ending of the last part. -/
theorem exists_splitWhere_append {isSeparator : α → Bool} {ending : List α}
    (h : ∀ a ∈ ending, isSeparator a = false) (l : List α) :
    ∃ front part, splitWhere isSeparator (l ++ ending) = front ++ [part ++ ending] := by
  induction l with
  | nil => exact ⟨[], [], splitWhere_eq_singleton h⟩
  | cons a l ih =>
    obtain ⟨front, part, hparts⟩ := ih
    rw [List.cons_append, splitWhere, hparts]
    split_ifs
    · exact ⟨[] :: front, part, rfl⟩
    · cases front with
      | nil => exact ⟨[], a :: part, rfl⟩
      | cons first more => exact ⟨(a :: first) :: more, part, rfl⟩

theorem mem_of_mem_splitWhere {isSeparator : α → Bool} {l part : List α}
    (h : part ∈ splitWhere isSeparator l) : ∀ a ∈ part, a ∈ l := by
  induction l generalizing part with
  | nil =>
    rw [splitWhere, List.mem_singleton] at h
    simp [h]
  | cons b rest ih =>
    rw [splitWhere] at h
    split_ifs at h
    · rcases List.mem_cons.mp h with rfl | h
      · simp
      · exact fun a ha => List.mem_cons_of_mem _ (ih h a ha)
    · obtain ⟨first, more, hparts⟩ :=
        List.exists_cons_of_ne_nil (splitWhere_ne_nil isSeparator rest)
      rw [hparts] at h ih
      rcases List.mem_cons.mp h with rfl | h
      · exact fun a ha => List.mem_cons.mpr
          ((List.mem_cons.mp ha).imp_right (ih List.mem_cons_self a))
      · exact fun a ha => List.mem_cons_of_mem _ (ih (List.mem_cons_of_mem _ h) a ha)

end Text

namespace Url

open Location (ending)

/-! ## A segment that ends in the extension -/

theorem withoutBreaks_append_ending (cs : List Char) :
    withoutBreaks (cs ++ ending) = withoutBreaks cs ++ ending := by
  rw [withoutBreaks, withoutBreaks, List.filter_append,
    show ending.filter (fun c => !isBreak c) = ending from by decide]

theorem encodeText_append_ending (cs : List Char) :
    Percent.encodeText Percent.path (cs ++ ending)
      = Percent.encodeText Percent.path cs ++ ending := by
  have hplain : (Text.Utf8.encode ending).flatMap (Percent.encodeByte Percent.path) = ending := by
    decide
  rw [Percent.encodeText, Percent.encodeText, Percent.encode, Percent.encode,
    Text.Utf8.encode_append, List.flatMap_append, hplain]

/-- What ends in the extension is none of a few texts that do not. -/
theorem ne_of_append_ending {cs special : List Char} (h : special.getLast? ≠ ending.getLast?) :
    cs ++ ending ≠ special := by
  intro heq
  have hlast : ending.getLast? = some 'y' := by decide
  rw [← heq, List.getLast?_append, hlast] at h
  exact h rfl

theorem not_isDoubleDot_append_ending (cs : List Char) : isDoubleDot (cs ++ ending) = false := by
  rw [isDoubleDot, List.any_eq_false]
  intro special hspecial
  have hlast : ∀ s ∈ ["..", "%2e.", "%2E.", ".%2e", ".%2E", "%2e%2e", "%2e%2E", "%2E%2e",
      "%2E%2E"], s.toList.getLast? ≠ ending.getLast? := by
    decide
  simpa using ne_of_append_ending (hlast special hspecial)

theorem not_isSingleDot_append_ending (cs : List Char) : isSingleDot (cs ++ ending) = false := by
  rw [isSingleDot, List.any_eq_false]
  intro special hspecial
  have hlast : ∀ s ∈ [".", "%2e", "%2E"], s.toList.getLast? ≠ ending.getLast? := by
    decide
  simpa using ne_of_append_ending (hlast special hspecial)

theorem not_isDriveLetter_append_ending (cs : List Char) :
    isDriveLetter (cs ++ ending) = false := by
  have hlong : 2 < (cs ++ ending).length := by
    rw [List.length_append]
    have hlength : ending.length = 7 := by decide
    omega
  unfold isDriveLetter
  split
  next letter mark heq =>
    rw [heq] at hlong
    exact absurd hlong (by simp)
  next => rfl

namespace PathState

/-- A break behind a drive letter leaves the extension in the part behind it. -/
theorem exists_segments_pushDivided?_append_ending {kind : SchemeKind} {state after : PathState}
    {cs : List Char} (h : state.pushDivided? kind (cs ++ ending) = some after) :
    ∃ front part, after.segments = front ++ [part ++ ending] := by
  rw [pushDivided?] at h
  split_ifs at h
  obtain ⟨⟨drive, behind⟩, hsplit, rfl⟩ := Option.map_eq_some_iff.mp h
  rw [splitBehindDriveLetter?] at hsplit
  split at hsplit
  next letter mark next rest hdrive hrest =>
    dsimp only at hsplit
    split_ifs at hsplit with hdivided
    obtain ⟨-, rfl⟩ := Prod.mk.inj (Option.some.inj hsplit)
    have hnext : next ∉ ending := by
      intro hmem
      have hnone : ∀ c ∈ ending, isBreak c = false := Text.forall_eq_false (by decide)
      rw [hnone next hmem] at hdivided
      simp at hdivided
    have hbehind : next :: rest <:+ cs ++ ending := by
      have hmark : mark :: next :: rest <:+ cs ++ ending := hrest ▸ List.drop_suffix _ _
      exact (List.suffix_cons mark (next :: rest)).trans hmark
    obtain ⟨front, rfl⟩ :=
      Text.isSuffix_of_isSuffix_cons (List.suffix_append cs ending) hbehind hnext
    refine ⟨[drive], Percent.encodeText Percent.path (withoutBreaks front), ?_⟩
    dsimp only
    rw [withoutBreaks_append_ending, encodeText_append_ending]
    rfl
  next => exact nomatch hsplit

/-- **The extension stays at the end of a path.** -/
theorem exists_segments_read_append_ending (state : PathState) (cs : List Char) :
    ∃ front part, (state.read .file (cs ++ ending)).segments = front ++ [part ++ ending] := by
  have hplain : ∀ c ∈ ending, isSlash .file c = false := Text.forall_eq_false (by decide)
  obtain ⟨inner, last, hsegments⟩ := Text.exists_splitWhere_append hplain cs
  rw [read, hsegments, List.getLast?_concat, List.dropLast_concat]
  dsimp only
  generalize inner.foldl _ state = before
  cases hdivided : before.pushDivided? .file (last ++ ending) with
  | some after => exact exists_segments_pushDivided?_append_ending hdivided
  | none =>
    rw [withoutBreaks_append_ending, encodeText_append_ending, Option.getD_none, pushLast, push,
      not_isDoubleDot_append_ending, not_isSingleDot_append_ending,
      not_isDriveLetter_append_ending]
    exact ⟨before.segments, Percent.encodeText Percent.path (withoutBreaks last), by simp⟩

/-! ## Segments end no path -/

/-- Nothing in the segments read so far ends a path. -/
def Unended (state : PathState) : Prop :=
  ∀ segment ∈ state.segments, ∀ c ∈ segment, endsPath c = false

variable {kind : SchemeKind} {state : PathState} {raw : List Char}

theorem not_endsPath_of_mem_encodeText {cs : List Char} :
    ∀ c ∈ Percent.encodeText Percent.path cs, endsPath c = false :=
  fun _ hc => not_endsPath_of_mem_encode rfl rfl hc

theorem mem_of_mem_dropSegment {segments : List (List Char)} {segment : List Char}
    (h : segment ∈ dropSegment segments) : segment ∈ segments := by
  rw [dropSegment] at h
  split at h
  · split_ifs at h
    · exact h
    · exact List.dropLast_subset _ h
  · exact absurd h List.not_mem_nil

theorem Unended.push (h : state.Unended) {segment : List Char}
    (hsegment : ∀ c ∈ segment, endsPath c = false) : (state.push kind segment).Unended := by
  rw [PathState.push]
  split_ifs
  · exact fun s hs => h s (mem_of_mem_dropSegment hs)
  · exact h
  · intro s hs c hc
    rw [List.mem_singleton.mp hs] at hc
    rcases List.mem_append.mp hc with hc | hc
    · exact hsegment c (List.mem_of_mem_take hc)
    · rw [List.mem_singleton.mp hc]
      rfl
  · exact List.forall_mem_append.mpr ⟨h, List.forall_mem_singleton.mpr hsegment⟩

theorem Unended.pushLast (h : state.Unended) {segment : List Char}
    (hsegment : ∀ c ∈ segment, endsPath c = false) : (state.pushLast kind segment).Unended := by
  rw [PathState.pushLast]
  split_ifs
  · exact List.forall_mem_append.mpr
      ⟨h.push hsegment, List.forall_mem_singleton.mpr fun c hc => absurd hc List.not_mem_nil⟩
  · exact h.push hsegment

theorem unended_of_pushDivided? {after : PathState} (hraw : ∀ c ∈ raw, endsPath c = false)
    (h : state.pushDivided? kind raw = some after) : after.Unended := by
  rw [pushDivided?] at h
  split_ifs at h
  obtain ⟨⟨drive, behind⟩, hsplit, rfl⟩ := Option.map_eq_some_iff.mp h
  rw [splitBehindDriveLetter?] at hsplit
  split at hsplit
  next letter mark next rest hletter hmark =>
    dsimp only at hsplit
    split_ifs at hsplit
    obtain ⟨rfl, -⟩ := Prod.mk.inj (Option.some.inj hsplit)
    have hletterRaw : letter ∈ raw := by
      have hmem : letter ∈ withoutBreaks (raw.takeWhile (· ≠ ':')) := by
        rw [hletter]
        exact List.mem_cons_self
      exact List.takeWhile_subset _ (List.mem_filter.mp hmem).1
    have hmarkRaw : mark ∈ raw := List.mem_of_mem_drop (hmark ▸ List.mem_cons_self)
    refine List.forall_mem_cons.mpr
      ⟨?_, List.forall_mem_singleton.mpr not_endsPath_of_mem_encodeText⟩
    exact List.forall_mem_cons.mpr
      ⟨hraw letter hletterRaw, List.forall_mem_singleton.mpr (hraw mark hmarkRaw)⟩
  next => exact nomatch hsplit

/-- **What is read of a path ends no path.** -/
theorem Unended.read (h : state.Unended) (hraw : ∀ c ∈ raw, endsPath c = false) :
    (state.read kind raw).Unended := by
  have hpart : ∀ part ∈ Text.splitWhere (isSlash kind) raw, ∀ c ∈ part, endsPath c = false :=
    fun part hmem c hc => hraw c (Text.mem_of_mem_splitWhere hmem c hc)
  rw [PathState.read]
  dsimp only
  cases hlast : (Text.splitWhere (isSlash kind) raw).getLast? with
  | none => exact h
  | some last =>
    have hinner : ∀ parts : List (List Char), (∀ part ∈ parts, ∀ c ∈ part, endsPath c = false) →
        ∀ before : PathState, before.Unended →
        (parts.foldl (fun state raw => (state.pushDivided? kind raw).getD
          (state.push kind (Percent.encodeText Percent.path (withoutBreaks raw)))) before).Unended := by
      intro parts
      induction parts with
      | nil => exact fun _ before hbefore => hbefore
      | cons part rest ih =>
        intro hparts before hbefore
        rw [List.foldl_cons]
        refine ih (fun p hp => hparts p (List.mem_cons_of_mem _ hp)) _ ?_
        cases hdivided : before.pushDivided? kind part with
        | some after => exact unended_of_pushDivided? (hparts part List.mem_cons_self) hdivided
        | none => exact hbefore.push not_endsPath_of_mem_encodeText
    have hbefore := hinner _ (fun part hmem => hpart part (List.dropLast_subset _ hmem)) _ h
    dsimp only
    cases hdivided : PathState.pushDivided? kind _ last with
    | some after =>
      exact unended_of_pushDivided? (hpart last (List.mem_of_getLast? hlast)) hdivided
    | none => exact hbefore.pushLast not_endsPath_of_mem_encodeText

end PathState

/-! ## The text of a file's path -/

theorem head?_filePathText (segments : List (List Char)) :
    (filePathText segments).head? = some '/' := by
  rw [filePathText]
  split
  · rfl
  next hsome =>
    obtain ⟨segment, rest, hkept⟩ := List.exists_cons_of_ne_nil hsome
    rw [hkept]
    rfl

theorem PathState.Unended.filePathText {state : PathState} (h : state.Unended) :
    ∀ c ∈ filePathText state.segments, endsPath c = false := by
  rw [Url.filePathText]
  split
  · exact Text.forall_eq_false (by decide)
  · intro c hc
    obtain ⟨segment, hsegment, hc⟩ := List.mem_flatMap.mp hc
    rcases List.mem_cons.mp hc with rfl | hc
    · rfl
    · exact h segment (List.dropWhile_subset _ hsegment) c hc

theorem exists_filePathText_append (front : List (List Char)) {segment : List Char}
    (h : segment ≠ []) : ∃ before, filePathText (front ++ [segment]) = before ++ segment := by
  -- The segment stops the search for a segment that is not empty at the latest.
  have hkept : ∃ kept, (front ++ [segment]).dropWhile (· = []) = kept ++ [segment] := by
    induction front with
    | nil => exact ⟨[], List.dropWhile_cons_of_neg (by simpa using h)⟩
    | cons first rest ih =>
      rw [List.cons_append, List.dropWhile_cons]
      split_ifs
      · exact ih
      · exact ⟨first :: rest, rfl⟩
  obtain ⟨kept, hkept⟩ := hkept
  refine ⟨pathText kept ++ ['/'], ?_⟩
  rw [filePathText, hkept]
  split
  next hnone => exact absurd hnone (by simp)
  next =>
    rw [pathText, pathText, List.flatMap_append, List.flatMap_singleton, List.append_assoc]
    rfl

/-- The URL of the scheme of files with this text behind the colon. -/
def fileUrl (after : List Char) : Url :=
  ⟨String.ofList ("file".toList ++ ':' :: after)⟩

theorem toList_text_fileUrl (after : List Char) :
    (fileUrl after).text.toList = "file".toList ++ ':' :: after :=
  String.toList_ofList

/-- A file's URL has the parts that it was put together of. -/
theorem parts_fileUrl {host cs : List Char} (hhost : ∀ c ∈ host, endsAuthority c = false)
    (hcs : ∀ c ∈ cs, endsPath c = false) :
    (fileUrl (afterFileHost host ⟨[], false⟩ cs)).parts
      = ⟨"file".toList, some (if (PathState.read .file ⟨[], false⟩ cs).onDrive then [] else host),
        filePathText (PathState.read .file ⟨[], false⟩ cs).segments⟩ := by
  have hraw : untilQuery cs = cs := by
    rw [untilQuery, List.takeWhile_eq_self_iff]
    intro c hc
    rw [hcs c hc]
    rfl
  have hunended : (PathState.read .file ⟨[], false⟩ cs).Unended :=
    PathState.Unended.read (fun _ hs => absurd hs List.not_mem_nil) hcs
  have htext : (fileUrl (afterFileHost host ⟨[], false⟩ cs)).text.toList
      = "file://".toList ++ (if (PathState.read .file ⟨[], false⟩ cs).onDrive then [] else host)
        ++ filePathText (PathState.read .file ⟨[], false⟩ cs).segments := by
    rw [toList_text_fileUrl, afterFileHost, hraw, List.drop_length]
    exact congrArg ("file://".toList ++ ·) (List.append_nil _)
  rw [parts, htext]
  refine ofText_file (head?_filePathText _) ?_ hunended.filePathText
  split_ifs
  · exact fun _ hc => absurd hc List.not_mem_nil
  · exact hhost

end Url

end WorkspaceSession
