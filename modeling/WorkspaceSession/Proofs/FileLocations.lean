/-
The location of a file's document.

A document that is addressed by the URL of a file lies where the file is: reading the location off
the URL gives a path with the components of the file's path (`Location.exists_ofUrl_of_ofFilePath?`),
and so the URL of that path is the document's URL again. The spelling may be another one, as a URL
does not keep how often a slash was repeated, and a path that ends like a drive is given a slash.
None of this touches a component.
-/
import Mathlib.Data.List.TakeWhile
import WorkspaceSession.Location
import WorkspaceSession.Proofs.FileUrls

set_option autoImplicit false

namespace WorkspaceSession

namespace Path

theorem not_root_mem_filterMap_ofSegment (segments : List Bytes) :
    Component.root ∉ segments.filterMap Component.ofSegment := by
  intro hmem
  obtain ⟨segment, -, hsegment⟩ := List.mem_filterMap.mp hmem
  rw [Component.ofSegment] at hsegment
  split_ifs at hsegment
  · cases hsegment
  · cases hsegment

/-- Whether a path is absolute shows in its components. -/
theorem isAbsolute_iff_head?_components (path : Path) :
    path.isAbsolute = true ↔ path.components.head? = some .root := by
  constructor
  · intro h
    rw [components_of_isAbsolute h]
    rfl
  · intro h
    by_contra hrelative
    have hnot := not_root_mem_filterMap_ofSegment path.segments
    rw [components, if_neg hrelative] at h
    split_ifs at h
    · cases h
    · exact hnot (List.mem_of_mem_head? h)

theorem isAbsolute_congr {p q : Path} (h : p.components = q.components) :
    p.isAbsolute = q.isAbsolute := by
  rw [Bool.eq_iff_iff, isAbsolute_iff_head?_components, isAbsolute_iff_head?_components, h]

/-- A slash behind an absolute path adds no component. -/
theorem components_append_separator {path : Path} (h : path.isAbsolute = true) :
    (⟨path.bytes ++ [separator]⟩ : Path).components = path.components := by
  have habsolute : (⟨path.bytes ++ [separator]⟩ : Path).isAbsolute = true := by
    obtain ⟨rest, hbytes⟩ := List.head?_eq_some_iff.mp (of_decide_eq_true h)
    rw [isAbsolute, hbytes]
    rfl
  rw [components_of_isAbsolute habsolute, components_of_isAbsolute h, segments,
    Text.splitWhere_append_cons (by simp), List.filterMap_append]
  exact congrArg _ (List.append_nil _)

end Path

namespace Url

/-- The URL of a file is a matter of the components of its path. -/
theorem ofFilePath?_congr {p q : Path} (h : p.components = q.components) :
    ofFilePath? p = ofFilePath? q := by
  rw [ofFilePath?, ofFilePath?, filePath, filePath, Path.isAbsolute_congr h, h]

/-! ## Parts of a file's URL -/

/-- Nothing that encoded bytes are written with ends a path, if what does is reserved. -/
theorem not_endsPath_of_mem_encode {reserved : Percent.Reserved} (hquery : reserved '?' = true)
    (hfragment : reserved '#' = true) {bytes : Bytes} {c : Char}
    (h : c ∈ Percent.encode reserved bytes) : endsPath c = false := by
  obtain ⟨b, -, hc⟩ := List.mem_flatMap.mp h
  have hdigit : ∀ n : Fin 16, endsPath (Percent.hexDigit n) = false := by decide
  rw [Percent.encodeByte] at hc
  split_ifs at hc with hliteral
  · -- A byte is left as it is only if its character is not reserved, and these two are.
    have hallowed := (Bool.and_eq_true _ _ ▸ hliteral).2
    rw [List.mem_singleton.mp hc, endsPath]
    by_contra hends
    rw [Bool.not_eq_false, Bool.or_eq_true, decide_eq_true_eq, decide_eq_true_eq] at hends
    rcases hends with heq | heq
    · rw [heq, hquery] at hallowed
      exact absurd hallowed (by decide)
    · rw [heq, hfragment] at hallowed
      exact absurd hallowed (by decide)
  · have hb : b.toNat < 256 := b.toNat_lt
    simp only [List.mem_cons, List.not_mem_nil, or_false] at hc
    rcases hc with rfl | rfl | rfl
    · rfl
    · exact hdigit ⟨b.toNat / 16, by omega⟩
    · exact hdigit ⟨b.toNat % 16, by omega⟩

theorem not_endsPath_of_mem_filePath {path : Path} {c : Char} (h : c ∈ filePath path) :
    endsPath c = false := by
  rw [filePath] at h
  split at h
  · rw [List.mem_singleton.mp h]
    rfl
  · obtain ⟨component, -, hc⟩ := List.mem_flatMap.mp h
    rcases List.mem_cons.mp hc with rfl | hc
    · rfl
    · cases component with
      | root => exact absurd hc List.not_mem_nil
      | current => rw [List.mem_singleton.mp hc]; rfl
      | parent =>
        have hdot : c = '.' := by simpa [segmentOfComponent] using hc
        rw [hdot]
        rfl
      | name bytes => exact not_endsPath_of_mem_encode rfl rfl hc

theorem exists_filePath_eq_cons (path : Path) : ∃ rest, filePath path = '/' :: rest := by
  rw [filePath]
  cases path.components.drop 1 with
  | nil => exact ⟨[], rfl⟩
  | cons component rest => exact ⟨_, List.flatMap_cons⟩

/-- The parts of a URL with the scheme of files, from what it is put together of. -/
theorem ofText_file {authority path : List Char} (hslash : path.head? = some '/')
    (hauthority : ∀ c ∈ authority, endsAuthority c = false)
    (hpath : ∀ c ∈ path, endsPath c = false) :
    Parts.ofText ("file://".toList ++ authority ++ path)
      = ⟨"file".toList, some authority, path⟩ := by
  obtain ⟨rest, rfl⟩ := List.head?_eq_some_iff.mp hslash
  have htake : (authority ++ '/' :: rest).takeWhile (fun c => !endsAuthority c) = authority := by
    rw [List.takeWhile_append_of_pos fun c hc => by rw [hauthority c hc]; rfl]
    exact (congrArg (authority ++ ·) (List.takeWhile_cons_of_neg (by decide))).trans
      (List.append_nil _)
  have huntil : untilQuery ('/' :: rest) = '/' :: rest := by
    rw [untilQuery, List.takeWhile_eq_self_iff]
    intro c hc
    rw [hpath c hc]
    rfl
  have hparts : Parts.ofText ("file://".toList ++ authority ++ '/' :: rest)
      = ⟨"file".toList, some ((authority ++ '/' :: rest).takeWhile fun c => !endsAuthority c),
        untilQuery ((authority ++ '/' :: rest).drop
          ((authority ++ '/' :: rest).takeWhile fun c => !endsAuthority c).length)⟩ := by
    rw [List.append_assoc]
    rfl
  rw [hparts, htake, List.drop_left, huntil]

/-- The URL of a file has the scheme of files, an empty authority and the file's path. -/
theorem parts_of_ofFilePath? {path : Path} {url : Url} (h : ofFilePath? path = some url) :
    url.parts = ⟨"file".toList, some [], filePath path⟩ := by
  obtain ⟨-, rfl⟩ := ofFilePath?_eq_some.mp h
  obtain ⟨rest, hslash⟩ := exists_filePath_eq_cons path
  rw [parts, String.toList_ofList, ← List.append_nil "file://".toList]
  exact ofText_file (by rw [hslash]; rfl) (fun _ hc => absurd hc List.not_mem_nil)
    (fun _ hc => not_endsPath_of_mem_filePath hc)

/-- The path that is read off the URL of a file has the components of the file's path. -/
theorem exists_toFilePath?_of_ofFilePath? {path : Path} {url : Url}
    (h : ofFilePath? path = some url) :
    ∃ back, url.toFilePath? = some back ∧ back.components = path.components := by
  have hparts := parts_of_ofFilePath? h
  obtain ⟨habsolute, -⟩ := ofFilePath?_eq_some.mp h
  obtain ⟨rest, hslash⟩ := exists_filePath_eq_cons path
  have hpath : url.path = filePath path := by rw [Url.path, hparts]
  have hhost : url.host = [] := by
    rw [host, hparts]
    rfl
  rw [toFilePath?, if_pos ⟨by rw [hpath, hslash]; rfl, Or.inl hhost⟩, hpath, decode_filePath]
  refine ⟨_, rfl, ?_⟩
  have hplain : ∀ c ∈ path.components.drop 1, c.IsPlain :=
    fun c hc => Path.isPlain_of_mem_components habsolute hc
  have hback : (⟨Path.rooted (path.components.drop 1)⟩ : Path).components = path.components := by
    rw [Path.components_rooted hplain, Path.components_of_isAbsolute habsolute, List.drop_one,
      List.tail_cons]
  split_ifs
  · have hrooted : (⟨Path.rooted (path.components.drop 1)⟩ : Path).isAbsolute = true := by
      rw [Path.isAbsolute_iff_head?_components, hback, Path.components_of_isAbsolute habsolute]
      rfl
    exact (Path.components_append_separator hrooted).trans hback
  · exact hback

end Url

namespace Location

variable {url : Url}

/-- A document lies where its file form says. -/
theorem ofUrl_of_fileForm_eq_ok [Url.DomainNames] {place : Url} (h : fileForm url = .ok place) :
    ofUrl url = place.toFilePath?.elim (.error ⟨url, none⟩) .ok := by
  unfold ofUrl
  rw [h]
  dsimp only
  cases place.toFilePath? with
  | none => rfl
  | some path => rfl

/-- Without a file form the document's own URL is asked, and the reason is kept. -/
theorem ofUrl_of_fileForm_eq_error [Url.DomainNames] {bad : BadForm}
    (h : fileForm url = .error bad) :
    ofUrl url = url.toFilePath?.elim (.error ⟨url, some bad⟩) .ok := by
  unfold ofUrl
  rw [h]
  dsimp only
  cases url.toFilePath? with
  | none => rfl
  | some path => rfl

/-- **Files lie where they are.** A document that is addressed by the URL of a file has a location,
and that is the path of the file. -/
theorem exists_ofUrl_of_ofFilePath? [Url.DomainNames] {path : Path}
    (h : Url.ofFilePath? path = some url) :
    ∃ location, ofUrl url = .ok location ∧ location.components = path.components := by
  obtain ⟨back, hback, hcomponents⟩ := Url.exists_toFilePath?_of_ofFilePath? h
  have hfile : isVirtual url = false := by
    have hscheme : url.scheme = "file".toList := by rw [Url.scheme, Url.parts_of_ofFilePath? h]
    rw [isVirtual, hscheme]
    decide
  have hform : fileForm url = .ok url := by
    rw [fileForm, hfile]
    rfl
  refine ⟨back, ?_, hcomponents⟩
  rw [ofUrl_of_fileForm_eq_ok hform, hback]
  rfl

end Location

end WorkspaceSession
