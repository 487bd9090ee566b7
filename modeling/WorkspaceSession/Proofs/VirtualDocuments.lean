/-
Where virtual documents lie.

The file form of a virtual document is put together as a text and read again under the rules of
files, which differ from those that the document's own URL was read by: the host may take the path
and the extension in, the local host is left out, and a host that is no name of a machine is
refused. If the text is refused, the document's own URL is asked for a path. It never has one then:
a URL that names a path on this machine has no host or the local one, and a text that begins with
such a host is not refused (`Location.exists_parse_of_toFilePath?`).

If the text is read, either the host took the extension in and is not this machine, or the path
ends in the extension. So where a virtual document lies ends in the extension of sources, and a
document whose file form is refused lies nowhere. All of this holds of every lawful mapping of domain
names.
-/
import WorkspaceSession.Proofs.PathSegments

set_option autoImplicit false

namespace WorkspaceSession

/-- What precedes the first element that does not satisfy `p`, and what is left. -/
theorem Text.exists_eq_takeWhile_append {α : Type} (p : α → Bool) (l : List α) :
    ∃ rest, l = l.takeWhile p ++ rest ∧ l.drop (l.takeWhile p).length = rest
      ∧ ∀ a ∈ rest.head?, p a = false := by
  induction l with
  | nil => exact ⟨[], rfl, rfl, fun a ha => nomatch ha⟩
  | cons a l ih =>
    by_cases ha : p a = true
    · obtain ⟨rest, hcut, hdrop, hends⟩ := ih
      rw [List.takeWhile_cons_of_pos ha]
      exact ⟨rest, congrArg (a :: ·) hcut, hdrop, hends⟩
    · rw [List.takeWhile_cons_of_neg ha]
      refine ⟨a :: l, rfl, rfl, fun b hb => ?_⟩
      rw [← Option.some.inj hb]
      exact Bool.not_eq_true _ ▸ ha

namespace Url

open Location (ending)

variable {front after : List Char} {path : Path}

/-! ## Paths that end in the extension -/

/-- A path that ends in the extension is read off as one that does. -/
theorem isSuffix_of_toFilePath? {url : Url} (hurl : url.path = front ++ ending)
    (h : url.toFilePath? = some path) :
    Bytes.ofString ("." ++ sourceExtension) <:+ path.bytes := by
  rw [toFilePath?] at h
  split_ifs at h
  have hdecoded := Location.decode_encode_append_ending front
  have hdrive : endsLikeDrive (Percent.decode (Text.Utf8.encode (front ++ ending))) = false := by
    have hreverse : (Bytes.ofString ("." ++ sourceExtension)).reverse
        = [0x79, 0x76, 0x6F, 0x6F, 0x72, 0x67, 0x2E] := by
      decide
    rw [hdecoded, endsLikeDrive, List.reverse_append, hreverse]
    rfl
  rw [← Option.some.inj h, hurl, hdrive, if_neg Bool.false_ne_true, hdecoded]
  exact List.suffix_append _ _

/-- The URL of a file whose path was read from a text that ends in the extension. -/
theorem isSuffix_of_afterFileHost {host : List Char}
    (hhost : ∀ c ∈ host, endsAuthority c = false) (hcs : ∀ c ∈ front ++ ending, endsPath c = false)
    (h : (fileUrl (afterFileHost host ⟨[], false⟩ (front ++ ending))).toFilePath? = some path) :
    Bytes.ofString ("." ++ sourceExtension) <:+ path.bytes := by
  obtain ⟨before, part, hsegments⟩ :=
    PathState.exists_segments_read_append_ending ⟨[], false⟩ front
  have hne : part ++ ending ≠ [] := ne_of_append_ending (by decide)
  obtain ⟨text, htext⟩ := exists_filePathText_append before hne
  have hpath : (fileUrl (afterFileHost host ⟨[], false⟩ (front ++ ending))).path
      = (text ++ part) ++ ending := by
    rw [Url.path, parts_fileUrl hhost hcs]
    dsimp only
    rw [hsegments, htext, List.append_assoc]
  exact isSuffix_of_toFilePath? hpath h

/-- A URL whose host is a name that ends in the extension names no path on this machine. -/
theorem toFilePath?_of_host_append_ending
    (hname : ∀ c ∈ front ++ ending, Host.isForbiddenInDomain c = false) :
    (fileUrl (afterFileHost (front ++ ending) ⟨[], false⟩ [])).toFilePath? = none := by
  have hparts := parts_fileUrl
    (fun c hc => Host.not_endsAuthority_of_not_isForbiddenInDomain (hname c hc))
    (fun c (hc : c ∈ ([] : List Char)) => absurd hc List.not_mem_nil)
  have hdrive : (PathState.read .file ⟨[], false⟩ []).onDrive = false := by decide
  rw [toFilePath?, if_neg]
  rintro ⟨-, hlocal⟩
  rw [host, hparts] at hlocal
  dsimp only at hlocal
  rw [hdrive, if_neg Bool.false_ne_true, hostOfAuthority_eq_self hname] at hlocal
  rcases hlocal with hempty | hlocal
  · exact ne_of_append_ending (by decide) hempty
  · exact ne_of_append_ending (by decide) hlocal

/-! ## Reading a text that ends in the extension -/

/-- The local host in front of a path is left out. -/
theorem afterFileScheme_localhost [names : DomainNames] (hnames : names.Lawful)
    (rest : List Char) :
    afterFileScheme ('/' :: '/' :: ("localhost".toList ++ '/' :: rest))
      = .ok (afterFileHost [] ⟨[], false⟩ ('/' :: rest)) := by
  have hread : afterFileScheme ('/' :: '/' :: ("localhost".toList ++ '/' :: rest)) = do
      let host ← Host.parseDomain "localhost".toList
      if host = .domain "localhost".toList then return afterFileHost [] ⟨[], false⟩ ('/' :: rest)
      else return afterFileHost host.text ⟨[], false⟩ (withoutSlash .file ('/' :: rest)) := rfl
  rw [hread, Host.parseDomain_localhost hnames]
  rfl

/-- What follows the host in a text that ends in the extension: nothing, if the host took the
extension in, or a slash and more that ends in it. -/
theorem exists_rest_of_host {rest : List Char} (hcs : ∀ c ∈ front ++ ending, endsPath c = false)
    (hcut : front ++ ending = ((front ++ ending).takeWhile fun c => !endsHost .file c) ++ rest)
    (hends : ∀ c ∈ rest.head?, endsHost .file c = true) :
    rest = [] ∨ ∃ slash behind, rest = slash :: (behind ++ ending)
      ∧ withoutSlash .file rest = behind ++ ending := by
  cases rest with
  | nil => exact Or.inl rfl
  | cons slash tail =>
    have hbehind : slash :: tail <:+ front ++ ending := hcut ▸ List.suffix_append _ _
    have hslash : slash = '/' ∨ slash = '\\' := by
      have hpath := hcs slash (hbehind.subset List.mem_cons_self)
      have hend := hends slash rfl
      rw [endsPath] at hpath
      rw [endsHost, endsAuthority] at hend
      grind
    have hmem : slash ∉ ending := by
      rcases hslash with rfl | rfl
      · decide
      · decide
    obtain ⟨behind, rfl⟩ :=
      Text.isSuffix_of_isSuffix_cons (List.suffix_append front ending) hbehind hmem
    refine Or.inr ⟨slash, behind, rfl, ?_⟩
    rcases hslash with rfl | rfl
    · rfl
    · rfl

/-- What the text of a file form is read as: the extension is at the end of the path, or the host is
a name that took it in. -/
theorem afterFileScheme_cases [names : DomainNames] (hnames : names.Lawful)
    (hcs : ∀ c ∈ front ++ ending, endsPath c = false)
    (hafter : afterFileScheme ('/' :: '/' :: (front ++ ending)) = .ok after) :
    (∃ host behind, after = afterFileHost host ⟨[], false⟩ (behind ++ ending)
      ∧ (∀ c ∈ host, endsAuthority c = false) ∧ ∀ c ∈ behind ++ ending, endsPath c = false)
    ∨ ∃ name, after = afterFileHost (name ++ ending) ⟨[], false⟩ []
      ∧ ∀ c ∈ name ++ ending, Host.isForbiddenInDomain c = false := by
  have hslashes : (afterSlash? .file ('/' :: '/' :: (front ++ ending))).bind (afterSlash? .file)
      = some (front ++ ending) := rfl
  have hempty : ∀ c ∈ ([] : List Char), endsAuthority c = false :=
    fun _ hc => absurd hc List.not_mem_nil
  obtain ⟨rest, hcut, hdrop, hends⟩ :=
    Text.exists_eq_takeWhile_append (fun c => !endsHost .file c) (front ++ ending)
  have hrest := exists_rest_of_host hcs hcut fun c hc => by simpa using hends c hc
  rw [afterFileScheme, hslashes] at hafter
  dsimp only at hafter
  rw [hdrop] at hafter
  split_ifs at hafter
  · exact Or.inl ⟨[], front, (Except.ok.inj hafter).symm, hempty, hcs⟩
  cases hhost : Host.parseDomain
      (withoutBreaks ((front ++ ending).takeWhile fun c => !endsHost .file c)) with
  | error cause =>
    rw [hhost] at hafter
    exact nomatch hafter
  | ok host =>
    rw [hhost] at hafter
    replace hafter : (if host = .domain "localhost".toList then
        .ok (afterFileHost [] ⟨[], false⟩ rest)
      else .ok (afterFileHost host.text ⟨[], false⟩ (withoutSlash .file rest))
        : Except ParseError (List Char)) = .ok after := hafter
    rcases hrest with rfl | ⟨slash, behind, rfl, hbehind⟩
    · rw [List.append_nil] at hcut
      rw [← hcut, withoutBreaks_append_ending] at hhost
      obtain ⟨name, rfl⟩ := Host.exists_of_parseDomain_append_ending hnames hhost
      have hlocal : Host.domain (name ++ ending) ≠ .domain "localhost".toList :=
        fun heq => ne_of_append_ending (by decide) (Host.domain.inj heq)
      rw [if_neg hlocal] at hafter
      exact Or.inr ⟨name, (Except.ok.inj hafter).symm,
        Host.not_isForbiddenInDomain_of_parseDomain hhost⟩
    · have hwhole : ∀ c ∈ (slash :: behind) ++ ending, endsPath c = false := by
        intro c hc
        refine hcs c ?_
        rw [hcut]
        exact List.mem_append_right _ hc
      split_ifs at hafter
      · exact Or.inl ⟨[], slash :: behind, (Except.ok.inj hafter).symm, hempty, hwhole⟩
      · rw [hbehind] at hafter
        exact Or.inl ⟨host.text, behind, (Except.ok.inj hafter).symm,
          Host.not_endsAuthority_of_mem_text hhost,
          fun c hc => hwhole c (List.mem_cons_of_mem _ hc)⟩

/-- **Where a file form lies ends in the extension.** -/
theorem isSuffix_of_afterFileScheme [names : DomainNames] (hnames : names.Lawful)
    (hcs : ∀ c ∈ front ++ ending, endsPath c = false)
    (hafter : afterFileScheme ('/' :: '/' :: (front ++ ending)) = .ok after)
    (h : (fileUrl after).toFilePath? = some path) :
    Bytes.ofString ("." ++ sourceExtension) <:+ path.bytes := by
  rcases afterFileScheme_cases hnames hcs hafter with
    ⟨host, behind, rfl, hhost, hbehind⟩ | ⟨name, rfl, hname⟩
  · exact isSuffix_of_afterFileHost hhost hbehind h
  · exact nomatch (toFilePath?_of_host_append_ending hname).symm.trans h

theorem trim_append_ending (front : List Char) :
    trim ("file://".toList ++ (front ++ ending)) = "file://".toList ++ (front ++ ending) := by
  have hreverse : ending.reverse = ['y', 'v', 'o', 'o', 'r', 'g', '.'] := by decide
  have hback : ("file://".toList ++ (front ++ ending)).reverse.dropWhile isSpaceOrControl
      = ("file://".toList ++ (front ++ ending)).reverse := by
    rw [List.reverse_append, List.reverse_append, hreverse]
    rfl
  have hfront : ("file://".toList ++ (front ++ ending)).dropWhile isSpaceOrControl
      = "file://".toList ++ (front ++ ending) := rfl
  rw [trim, hfront, hback, List.reverse_reverse]

/-- A file form is read by what stands behind its slashes. -/
theorem parse_file [DomainNames] (front : List Char) :
    Url.parse (String.ofList ("file://".toList ++ (front ++ ending)))
      = (afterFileScheme ('/' :: '/' :: (front ++ ending))).map fileUrl := by
  have hscheme : takeScheme? ("file://".toList ++ (front ++ ending))
      = some ("file".toList, '/' :: '/' :: (front ++ ending)) := rfl
  rw [parse, String.toList_ofList, trim_append_ending, hscheme]
  dsimp only
  rw [show SchemeKind.of "file".toList = .file from by decide]
  cases afterFileScheme ('/' :: '/' :: (front ++ ending)) with
  | error cause => rfl
  | ok after => rfl

end Url

namespace Location

variable {url : Url}

theorem fileFormText_eq (url : Url) : fileFormText url
    = String.ofList ("file://".toList ++ ((url.host ++ url.path) ++ ending)) := by
  have hscheme : (fileScheme ++ "://").toList = "file://".toList := by decide
  rw [fileFormText, hscheme, List.append_assoc, List.append_assoc, ← List.append_assoc url.host]
  rfl

/-- A text that begins like the file form of a document on this machine is not refused. -/
theorem exists_parse_of_toFilePath? [names : Url.DomainNames] (hnames : names.Lawful) {path : Path}
    (h : url.toFilePath? = some path) : ∃ place, Url.parse (fileFormText url) = .ok place := by
  rw [Url.toFilePath?] at h
  split_ifs at h with hlocal
  obtain ⟨hslash, hhost⟩ := hlocal
  obtain ⟨rest, hpath⟩ := List.head?_eq_some_iff.mp hslash
  rw [fileFormText_eq, Url.parse_file, hpath]
  rcases hhost with hhost | hhost
  · rw [hhost]
    exact ⟨_, rfl⟩
  · rw [hhost, List.append_assoc, List.cons_append, Url.afterFileScheme_localhost hnames]
    exact ⟨_, rfl⟩

/-- Nothing in a file form ends its path. -/
theorem not_endsPath_of_mem_fileForm (url : Url) :
    ∀ c ∈ (url.host ++ url.path) ++ ending, Url.endsPath c = false := by
  rw [List.forall_mem_append, List.forall_mem_append]
  exact ⟨⟨url.not_endsPath_of_mem_host, url.not_endsPath_of_mem_path⟩,
    Text.forall_eq_false (by decide)⟩

theorem fileForm_of_isVirtual [Url.DomainNames] (h : isVirtual url = true) :
    fileForm url
      = (Url.parse (fileFormText url)).mapError fun cause => ⟨url, fileFormText url, cause⟩ :=
  if_pos h

/-- A virtual document whose file form is refused lies nowhere. -/
theorem ofUrl_of_parse_eq_error [names : Url.DomainNames] (hnames : names.Lawful)
    (h : isVirtual url = true) {cause : Url.ParseError}
    (hcause : Url.parse (fileFormText url) = .error cause) :
    ofUrl url = .error ⟨url, some ⟨url, fileFormText url, cause⟩⟩ := by
  have hform : fileForm url = .error ⟨url, fileFormText url, cause⟩ := by
    rw [fileForm_of_isVirtual h, hcause]
    rfl
  cases hpath : url.toFilePath? with
  | some path =>
    obtain ⟨place, hplace⟩ := exists_parse_of_toFilePath? hnames hpath
    exact nomatch hplace.symm.trans hcause
  | none =>
    rw [ofUrl_of_fileForm_eq_error hform, hpath]
    rfl

/-- A virtual document that lies somewhere lies where its file form does. -/
theorem exists_fileForm_of_ofUrl [names : Url.DomainNames] (hnames : names.Lawful)
    (h : isVirtual url = true) {path : Path} (hpath : ofUrl url = .ok path) :
    ∃ place, Url.parse (fileFormText url) = .ok place ∧ fileForm url = .ok place
      ∧ place.toFilePath? = some path := by
  cases hparse : Url.parse (fileFormText url) with
  | error cause => exact nomatch (ofUrl_of_parse_eq_error hnames h hparse).symm.trans hpath
  | ok place =>
    have hform : fileForm url = .ok place := by
      rw [fileForm_of_isVirtual h, hparse]
      rfl
    refine ⟨place, rfl, hform, ?_⟩
    rw [ofUrl_of_fileForm_eq_ok hform] at hpath
    cases hlocated : place.toFilePath? with
    | none =>
      rw [hlocated] at hpath
      exact nomatch hpath
    | some located =>
      rw [hlocated] at hpath
      rw [Except.ok.inj hpath]

/-- What a file form names ends in the extension. -/
theorem isSuffix_of_parse_fileForm [names : Url.DomainNames] (hnames : names.Lawful) {place : Url}
    {path : Path} (hparse : Url.parse (fileFormText url) = .ok place)
    (h : place.toFilePath? = some path) :
    Bytes.ofString ("." ++ sourceExtension) <:+ path.bytes := by
  rw [fileFormText_eq, Url.parse_file] at hparse
  cases hafter : Url.afterFileScheme ('/' :: '/' :: ((url.host ++ url.path) ++ ending)) with
  | error cause =>
    rw [hafter] at hparse
    exact nomatch hparse
  | ok after =>
    rw [hafter] at hparse
    obtain rfl := Except.ok.inj hparse
    exact Url.isSuffix_of_afterFileScheme hnames (not_endsPath_of_mem_fileForm url) hafter h

/-- **Virtual documents lie where their file forms do**, however domain names are mapped. -/
theorem ofUrl_of_isVirtual [names : Url.DomainNames] (hnames : names.Lawful)
    (h : isVirtual url = true) :
    (∀ path, ofUrl url = .ok path →
      (∃ place, fileForm url = .ok place ∧ place.toFilePath? = some path)
        ∧ Bytes.ofString ("." ++ sourceExtension) <:+ path.bytes)
    ∧ ∀ cause, Url.parse (fileFormText url) = .error cause →
        ofUrl url = .error ⟨url, some ⟨url, fileFormText url, cause⟩⟩ := by
  refine ⟨fun path hpath => ?_, fun cause hcause => ofUrl_of_parse_eq_error hnames h hcause⟩
  obtain ⟨place, hparse, hform, hplace⟩ := exists_fileForm_of_ofUrl hnames h hpath
  exact ⟨⟨place, hform, hplace⟩, isSuffix_of_parse_fileForm hnames hparse hplace⟩

/-- A document whose host is the local one in other letters, with escapes, lies on this machine; one
whose host took the extension in, in brackets, lies nowhere, and the report says what its file form
was. -/
theorem ofUrl_of_isVirtual_escaped :
    let located : Url := ⟨"inmemory://%EF%BD%8Cocal%48ost/a%2Fb%"⟩
    let unlocated : Url := ⟨"inmemory://[::1]"⟩
    isVirtual located = true ∧ isVirtual unlocated = true
      ∧ (∃ path, ofUrl located = .ok path ∧ path = .ofString "/a/b%.groovy"
        ∧ Bytes.ofString ("." ++ sourceExtension) <:+ path.bytes)
      ∧ ofUrl unlocated
        = .error ⟨unlocated, some ⟨unlocated, "file://[::1].groovy", .invalidIpv6⟩⟩ := by
  intro located unlocated
  have hlocated : isVirtual located = true := by decide
  have hunlocated : isVirtual unlocated = true := by decide
  have hpath : ofUrl located = .ok (.ofString "/a/b%.groovy") := by decide +kernel
  have htext : fileFormText unlocated = "file://[::1].groovy" := by decide +kernel
  have hparse : Url.parse (fileFormText unlocated) = .error .invalidIpv6 := by decide +kernel
  refine ⟨hlocated, hunlocated, ⟨_, hpath, rfl, ?_⟩, ?_⟩
  · exact ((ofUrl_of_isVirtual Url.DomainNames.lawful_withoutTables hlocated).1 _ hpath).2
  · rw [(ofUrl_of_isVirtual Url.DomainNames.lawful_withoutTables hunlocated).2 _ hparse, htext]

end Location

end WorkspaceSession
