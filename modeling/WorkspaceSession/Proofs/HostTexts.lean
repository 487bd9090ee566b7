/-
Hosts that end in the source extension.

The file form of a virtual document puts the source extension behind the host and path of the
document. Where there is no slash between them the extension becomes part of the host, and the host
is read again under the rules of files: its escapes are decoded, the bytes are read as UTF-8 and the
name is mapped to ASCII. The extension comes through all of this unchanged. It begins with a
character that no escape and no longer character can contain; `Percent.decode_append_cons` and
`Text.Utf8.scan_append_cons` say that such a character cuts what is read in two. This character
divides labels too, so the letters behind it are mapped apart from the rest, and are kept. So a host
that ends in the extension is a name, never an address, and never the local one
(`Host.exists_of_parseDomain_append_ending`).
-/
import Mathlib.Data.List.TakeWhile
import Mathlib.Tactic.Common
import WorkspaceSession.Location
import WorkspaceSession.Proofs.FileUrls

set_option autoImplicit false

namespace WorkspaceSession

/-- A test that no character of a text passes. -/
theorem Text.forall_eq_false {test : Char → Bool} {cs : List Char} (h : cs.any test = false) :
    ∀ c ∈ cs, test c = false :=
  fun c hc => Bool.eq_false_iff.mpr (List.any_eq_false.mp h c hc)

/-! ## Characters beyond which reading starts anew -/

namespace Text.Utf8

/-- What begins a longer character does not go on with an ASCII one. -/
theorem low_of_lead_eq_starts {b : UInt8} {unfinished : Unfinished}
    (h : lead b = .starts unfinished) : 0x80 ≤ unfinished.low := by
  rw [lead] at h
  split_ifs at h
  all_goals
    cases h
    dsimp only
    decide

theorem lead_of_lt {b : UInt8} (h : b.toNat < 0x80) : lead b = .whole (Char.ofNat b.toNat) := by
  rw [lead]
  exact if_pos h

/-- An ASCII character ends whatever was being read before it. -/
theorem scan_append_cons {b : UInt8} (hb : b.toNat < 0x80) (rest bytes : Bytes)
    {state : Option Unfinished} (hstate : ∀ unfinished ∈ state, 0x80 ≤ unfinished.low) :
    scan state (bytes ++ b :: rest)
      = scan state bytes ++ some (Char.ofNat b.toNat) :: scan none rest := by
  induction bytes generalizing state with
  | nil =>
    cases state with
    | none => simp only [List.nil_append, scan, lead_of_lt hb]
    | some unfinished =>
      have hlow := UInt8.le_iff_toNat_le.mp (hstate unfinished rfl)
      have hrange : ¬ (unfinished.low ≤ b ∧ b ≤ unfinished.high) := by
        intro hin
        have hle := UInt8.le_iff_toNat_le.mp hin.1
        have hvalue : (0x80 : UInt8).toNat = 0x80 := rfl
        omega
      simp only [List.nil_append, List.singleton_append, scan, if_neg hrange, lead_of_lt hb]
  | cons d bytes ih =>
    -- Behind the first byte the scan is in one of these states.
    have hnone : scan none (bytes ++ b :: rest)
        = scan none bytes ++ some (Char.ofNat b.toNat) :: scan none rest :=
      ih fun _ h => nomatch h
    have hstarts : ∀ unfinished, lead d = .starts unfinished →
        scan (some unfinished) (bytes ++ b :: rest) = scan (some unfinished) bytes
          ++ some (Char.ofNat b.toNat) :: scan none rest := by
      intro unfinished hlead
      refine ih fun unfinished' h => ?_
      rw [← Option.some.inj h]
      exact low_of_lead_eq_starts hlead
    have howed : ∀ owed value,
        scan (some ⟨owed, 0x80, 0xBF, value⟩) (bytes ++ b :: rest)
          = scan (some ⟨owed, 0x80, 0xBF, value⟩) bytes
            ++ some (Char.ofNat b.toNat) :: scan none rest := by
      intro owed value
      refine ih fun unfinished' h => ?_
      rw [← Option.some.inj h]
      exact UInt8.le_refl 0x80
    cases state with
    | none =>
      rw [List.cons_append, scan, scan]
      cases hlead : lead d with
      | whole c => simp only [hnone, List.cons_append]
      | starts unfinished => simp only [hstarts unfinished hlead]
      | stray => simp only [hnone, List.cons_append]
    | some unfinished =>
      rw [List.cons_append, scan, scan]
      split_ifs with hrange
      · cases hbytes : unfinished.owed with
        | zero => simp only [hnone, List.cons_append]
        | succ owed => simp only [howed]
      · cases hlead : lead d with
        | whole c => simp only [hnone, List.cons_append]
        | starts unfinished' => simp only [hstarts unfinished' hlead, List.cons_append]
        | stray => simp only [hnone, List.cons_append]

end Text.Utf8

namespace Url

namespace Percent

/-- A byte that is part of no escape stands between two texts that are decoded independently. -/
theorem decode_append_cons {b : UInt8} (hsign : b ≠ 0x25) (hdigit : hexValue? b = none)
    (bytes rest : Bytes) : decode (bytes ++ b :: rest) = decode bytes ++ b :: decode rest := by
  have hhigh : ∀ a c, escape? a b c = none := by
    intro a c
    rw [escape?, hdigit]
    split_ifs
    · rfl
    · rfl
  have hlow : ∀ a c, escape? a c b = none := by
    intro a c
    rw [escape?, hdigit]
    split_ifs
    · cases hexValue? c with
      | none => rfl
      | some value => rfl
    · rfl
  have hone : ∀ a, decode (a :: b :: rest) = a :: b :: decode rest := by
    intro a
    cases rest with
    | nil => rfl
    | cons c rest => rw [decode, hhigh, decode_cons hsign]
  fun_induction decode bytes with
  | case1 a x c more byte hescape ih =>
    rw [List.cons_append, List.cons_append, List.cons_append, decode, hescape]
    exact congrArg (byte :: ·) ih
  | case2 a x c more hescape ih =>
    rw [List.cons_append, List.cons_append, List.cons_append, decode, hescape]
    exact congrArg (a :: ·) ih
  | case3 bytes hshort =>
    rcases bytes with _ | ⟨a, _ | ⟨x, _ | ⟨c, more⟩⟩⟩
    · exact decode_cons hsign rest
    · exact hone a
    · rw [List.cons_append, List.singleton_append, decode, hlow, hone]
      rfl
    · exact absurd rfl (hshort a x c more)

end Percent

end Url

/-! ## The source extension -/

namespace Location

/-- The source extension behind its dot, as it ends the file form of a virtual document. -/
def ending : List Char :=
  ("." ++ sourceExtension).toList

theorem ending_eq : ending = '.' :: sourceExtension.toList := by
  decide

/-- Decoding the escapes in front of the extension leaves the extension alone. -/
theorem decode_encode_append_ending (cs : List Char) :
    Url.Percent.decode (Text.Utf8.encode (cs ++ ending))
      = Url.Percent.decode (Text.Utf8.encode cs) ++ Bytes.ofString ("." ++ sourceExtension) := by
  have hbytes : Text.Utf8.encode ending = Path.dot :: Bytes.ofString sourceExtension := by decide
  have hdecoded : Path.dot :: Url.Percent.decode (Bytes.ofString sourceExtension)
      = Bytes.ofString ("." ++ sourceExtension) := by
    decide
  rw [Text.Utf8.encode_append, hbytes,
    Url.Percent.decode_append_cons (by decide) (by decide), hdecoded]

/-- The extension is read as itself, whatever the bytes in front of it are. -/
theorem exists_of_decode?_append {bytes : Bytes} {cs : List Char}
    (h : Text.Utf8.decode? (bytes ++ Bytes.ofString ("." ++ sourceExtension)) = some cs) :
    ∃ front, cs = front ++ ending := by
  have hbytes : Bytes.ofString ("." ++ sourceExtension)
      = Path.dot :: Bytes.ofString sourceExtension := by
    decide
  have hrest : (some (Char.ofNat Path.dot.toNat)
      :: Text.Utf8.scan none (Bytes.ofString sourceExtension)).mapM id = some ending := by
    decide
  have hnone : ∀ unfinished ∈ (none : Option Text.Utf8.Unfinished), 0x80 ≤ unfinished.low :=
    fun unfinished hmem => nomatch hmem
  rw [Text.Utf8.decode?, hbytes, Text.Utf8.scan_append_cons (by decide) _ _ hnone,
    List.mapM_append, hrest] at h
  cases hfront : (Text.Utf8.scan none bytes).mapM id with
  | none =>
    rw [hfront] at h
    exact nomatch h
  | some front =>
    rw [hfront] at h
    exact ⟨front, (Option.some.inj h).symm⟩

end Location

/-! ## Domain names -/

namespace Url.DomainNames

theorem narrow?_of_isLower {c : Char} (h : c.isLower = true) : narrow? c = some c := by
  obtain ⟨hlow, hhigh⟩ : 'a'.val ≤ c.val ∧ c.val ≤ 'z'.val :=
    (Bool.and_eq_true_iff.mp h).imp of_decide_eq_true of_decide_eq_true
  have hmin : 97 ≤ c.toNat := UInt32.le_iff_toNat_le.mp hlow
  have hmax : c.toNat ≤ 122 := UInt32.le_iff_toNat_le.mp hhigh
  have hascii : c.toNat < 0x80 := by omega
  have hlower : c.toLower = c := by
    refine dif_neg fun hupper => ?_
    have hle : c.toNat ≤ 90 := UInt32.le_iff_toNat_le.mp hupper.2
    omega
  rw [narrow?, if_pos hascii, hlower]

/-- What takes no table has the laws of all mappings. -/
theorem lawful_withoutTables : withoutTables.Lawful where
  letters name h := by
    have hmapped : name.mapM narrow? = some name := by
      induction name with
      | nil => rfl
      | cons c rest ih =>
        obtain ⟨hc, hrest⟩ := List.forall_mem_cons.mp h
        rw [List.mapM_cons, narrow?_of_isLower hc, ih hrest]
        rfl
    -- Neither a full stop nor the hyphens of Punycode are letters.
    have hnot : ∀ d : Char, d.isLower = false → d ∉ name := by
      intro d hd hmem
      rw [h d hmem] at hd
      exact nomatch hd
    have hlabel : Text.splitWhere (· = '.') name = [name] := by
      refine Text.splitWhere_eq_singleton fun c hc => decide_eq_false fun heq => ?_
      exact hnot '.' rfl (heq ▸ hc)
    have hplain : isPunycode name = false := by
      refine Bool.eq_false_iff.mpr fun hprefix => hnot '-' rfl ?_
      exact (List.isPrefixOf_iff_prefix.mp hprefix).subset (by decide)
    exact Option.filter_eq_some_iff.mpr ⟨hmapped, by simp [hlabel, hplain]⟩
  labels front back name h := by
    obtain ⟨hmapped, hplain⟩ := Option.filter_eq_some_iff.mp h
    simp only [List.mapM_append, List.mapM_cons, Option.bind_eq_bind, Option.bind_eq_some_iff,
      Option.pure_def, Option.some.injEq] at hmapped
    obtain ⟨front', hfront, _, ⟨stop, hstop, back', hback, rfl⟩, rfl⟩ := hmapped
    obtain rfl : '.' = stop := Option.some.inj hstop
    rw [Text.splitWhere_append_cons (by decide), List.any_append, Bool.not_or, Bool.and_eq_true]
      at hplain
    exact ⟨front', back', Option.filter_eq_some_iff.mpr ⟨hfront, hplain.1⟩,
      Option.filter_eq_some_iff.mpr ⟨hback, hplain.2⟩, rfl⟩

end Url.DomainNames

/-! ## Hosts -/

namespace Url.Host

open Location (ending)

theorem not_endsInNumber_append_ending (cs : List Char) :
    endsInNumber (cs ++ ending) = false := by
  have hsplit : Text.splitWhere (· = '.') (cs ++ ending)
      = Text.splitWhere (· = '.') cs ++ [sourceExtension.toList] := by
    have hextension : Text.splitWhere (· = '.') sourceExtension.toList
        = [sourceExtension.toList] := by
      decide
    rw [Location.ending_eq, Text.splitWhere_append_cons (by decide), hextension]
  have hlabels : labels (cs ++ ending)
      = Text.splitWhere (· = '.') cs ++ [sourceExtension.toList] := by
    rw [labels, hsplit, List.getLast?_concat, if_neg (by decide)]
  rw [endsInNumber, hlabels, List.getLast?_concat]
  decide

/-- A name holds nothing that is forbidden in names. -/
theorem not_isForbiddenInDomain_of_ofName {cs name : List Char}
    (h : ofName cs = .ok (.domain name)) : ∀ c ∈ name, isForbiddenInDomain c = false := by
  rw [ofName] at h
  split_ifs at h with hforbidden
  · split at h
    · exact nomatch h
    · exact nomatch h
  · obtain rfl := Host.domain.inj (Except.ok.inj h)
    intro c hc
    by_contra hbad
    rw [Bool.not_eq_false] at hbad
    exact hforbidden (List.any_eq_true.mpr ⟨c, hc, hbad⟩)

/-- A host that ends in the extension is no address. -/
theorem ofName_append_ending {front : List Char} {host : Host}
    (h : ofName (front ++ ending) = .ok host) : host = .domain (front ++ ending) := by
  have hname : ¬endsInNumber (front ++ ending) = true := by
    rw [not_endsInNumber_append_ending]
    exact Bool.false_ne_true
  rw [ofName, if_neg hname] at h
  split_ifs at h
  exact (Except.ok.inj h).symm

section

variable [names : DomainNames]

/-- A host is read out of brackets, or it is what the mapped name stands for. -/
theorem parseDomain_cases {cs : List Char} {host : Host} (h : parseDomain cs = .ok host) :
    (∃ inside, cs = '[' :: inside ∧ parseBracketed inside = .ok host)
      ∨ ∃ decoded name,
          Text.Utf8.decode? (Percent.decode (Text.Utf8.encode cs)) = some decoded
            ∧ names.toAscii? decoded = some name ∧ ofName name = .ok host := by
  unfold parseDomain at h
  split at h
  next inside => exact Or.inl ⟨inside, rfl, h⟩
  next =>
    split at h
    · exact nomatch h
    next decoded hdecoded =>
      split at h
      · exact nomatch h
      next name hname => exact Or.inr ⟨decoded, name, hdecoded, hname, h⟩

/-- A name that is read holds nothing that is forbidden in names. -/
theorem not_isForbiddenInDomain_of_parseDomain {cs name : List Char}
    (h : parseDomain cs = .ok (.domain name)) : ∀ c ∈ name, isForbiddenInDomain c = false := by
  obtain ⟨inside, -, hbracketed⟩ | ⟨_, _, -, -, hname⟩ := parseDomain_cases h
  · rw [parseBracketed] at hbracketed
    split_ifs at hbracketed
    split at hbracketed
    · exact nomatch hbracketed
    · exact nomatch hbracketed
  · exact not_isForbiddenInDomain_of_ofName hname

/-- The extension is a label of its own, and is kept. -/
theorem exists_of_toAscii?_append_ending (hnames : names.Lawful) {front name : List Char}
    (h : names.toAscii? (front ++ ending) = some name) : ∃ front', name = front' ++ ending := by
  rw [Location.ending_eq] at h ⊢
  obtain ⟨front', extension, -, hextension, rfl⟩ := hnames.labels front _ name h
  have hkept := hnames.letters sourceExtension.toList (List.all_eq_true.mp (by decide))
  obtain rfl := Option.some.inj (hextension.symm.trans hkept)
  exact ⟨front', rfl⟩

/-- **A host that ends in the extension is a name that does.** -/
theorem exists_of_parseDomain_append_ending (hnames : names.Lawful) {cs : List Char} {host : Host}
    (h : parseDomain (cs ++ ending) = .ok host) : ∃ front, host = .domain (front ++ ending) := by
  obtain ⟨inside, hbracket, hbracketed⟩ | ⟨decoded, name, hdecoded, hmapped, hname⟩ :=
    parseDomain_cases h
  · -- The extension would have to end in a bracket.
    have hlast : inside.getLast? ≠ some ']' := by
      intro hlast
      have hwhole : (cs ++ ending).getLast? = some ']' := by
        rw [hbracket, List.getLast?_cons, hlast]
        rfl
      rw [List.getLast?_append, show ending.getLast? = some 'y' from by decide,
        Option.some_or] at hwhole
      exact absurd hwhole (by decide)
    rw [parseBracketed, if_neg hlast] at hbracketed
    exact nomatch hbracketed
  · rw [Location.decode_encode_append_ending] at hdecoded
    obtain ⟨front, rfl⟩ := Location.exists_of_decode?_append hdecoded
    obtain ⟨front', rfl⟩ := exists_of_toAscii?_append_ending hnames hmapped
    exact ⟨front', ofName_append_ending hname⟩

/-- A host that no bracket begins is what its decoded and mapped name stands for. -/
theorem parseDomain_of_toAscii? {cs decoded name : List Char} (hcs : cs.head? ≠ some '[')
    (hdecoded : Text.Utf8.decode? (Percent.decode (Text.Utf8.encode cs)) = some decoded)
    (hname : names.toAscii? decoded = some name) : parseDomain cs = ofName name := by
  unfold parseDomain
  split
  next => exact absurd rfl hcs
  next =>
    rw [hdecoded]
    dsimp only
    rw [hname]

/-- The local host is read as itself. -/
theorem parseDomain_localhost (hnames : names.Lawful) :
    parseDomain "localhost".toList = .ok (.domain "localhost".toList) := by
  have hkept := hnames.letters "localhost".toList (List.all_eq_true.mp (by decide))
  rw [parseDomain_of_toAscii? (by decide) (by decide) hkept]
  decide

end

/-! ## What a host is written with -/

/-- What ends an authority is forbidden in names. -/
theorem not_endsAuthority_of_not_isForbiddenInDomain {c : Char}
    (h : isForbiddenInDomain c = false) : endsAuthority c = false := by
  by_contra hends
  rw [Bool.not_eq_false, endsAuthority, Bool.or_eq_true, Bool.or_eq_true, decide_eq_true_eq,
    decide_eq_true_eq, decide_eq_true_eq] at hends
  rcases hends with (rfl | rfl) | rfl
  · exact absurd h (by decide)
  · exact absurd h (by decide)
  · exact absurd h (by decide)

theorem not_endsAuthority_of_mem_toDigits {base n : Nat} {c : Char}
    (h : c ∈ Nat.toDigits base n) : endsAuthority c = false := by
  have hdigit : ∀ d : Nat, endsAuthority d.digitChar = false := by
    intro d
    have hslash : d.digitChar ≠ '/' := Nat.digitChar_ne '/' (by decide)
    have hquery : d.digitChar ≠ '?' := Nat.digitChar_ne '?' (by decide)
    have hfragment : d.digitChar ≠ '#' := Nat.digitChar_ne '#' (by decide)
    simp [endsAuthority, hslash, hquery, hfragment]
  -- The digits are written from the last one on, in front of those that are there.
  have hcore : ∀ (fuel n : Nat) (written : List Char),
      (∀ c ∈ written, endsAuthority c = false) →
      ∀ c ∈ Nat.toDigitsCore base fuel n written, endsAuthority c = false := by
    intro fuel
    induction fuel with
    | zero => exact fun _ _ hwritten => hwritten
    | succ fuel ih =>
      intro n written hwritten
      have hnext : ∀ c ∈ (n % base).digitChar :: written, endsAuthority c = false :=
        List.forall_mem_cons.mpr ⟨hdigit _, hwritten⟩
      rw [Nat.toDigitsCore]
      split_ifs
      · exact hnext
      · exact ih _ _ hnext
  exact hcore _ _ [] (fun _ hmem => absurd hmem List.not_mem_nil) c h

theorem not_endsAuthority_of_mem_intercalate {separator : List Char} {parts : List (List Char)}
    (hseparator : ∀ c ∈ separator, endsAuthority c = false)
    (hparts : ∀ part ∈ parts, ∀ c ∈ part, endsAuthority c = false) :
    ∀ c ∈ List.intercalate separator parts, endsAuthority c = false := by
  induction parts with
  | nil => exact fun c hc => absurd hc List.not_mem_nil
  | cons part rest ih =>
    have hpart := hparts part List.mem_cons_self
    cases rest with
    | nil =>
      rw [List.intercalate_singleton]
      exact hpart
    | cons next more =>
      have hrest := ih fun p hp => hparts p (List.mem_cons_of_mem _ hp)
      rw [List.intercalate_cons_cons, List.forall_mem_append, List.forall_mem_append]
      exact ⟨⟨hpart, hseparator⟩, hrest⟩

theorem not_endsAuthority_of_mem_groupsText {groups : List Nat} :
    ∀ c ∈ groupsText groups, endsAuthority c = false := by
  refine not_endsAuthority_of_mem_intercalate (Text.forall_eq_false (by decide))
    fun part hpart c hc => ?_
  obtain ⟨group, -, rfl⟩ := List.mem_map.mp hpart
  exact not_endsAuthority_of_mem_toDigits hc

/-- **What a host is written with ends no authority.** -/
theorem not_endsAuthority_of_mem_text [DomainNames] {cs : List Char} {host : Host}
    (h : parseDomain cs = .ok host) : ∀ c ∈ host.text, endsAuthority c = false := by
  cases host with
  | domain name =>
    intro c hc
    exact not_endsAuthority_of_not_isForbiddenInDomain
      (not_isForbiddenInDomain_of_parseDomain h c hc)
  | ipv4 address =>
    refine not_endsAuthority_of_mem_intercalate (Text.forall_eq_false (by decide))
      fun part hpart c hc => ?_
    obtain ⟨i, -, rfl⟩ := List.mem_map.mp hpart
    exact not_endsAuthority_of_mem_toDigits hc
  | ipv6 groups =>
    have hinside : ∀ {inside : List Char}, (∀ c ∈ inside, endsAuthority c = false) →
        ∀ c ∈ '[' :: inside ++ [']'], endsAuthority c = false := by
      intro inside h
      rw [List.cons_append, List.forall_mem_cons, List.forall_mem_append]
      exact ⟨rfl, h, Text.forall_eq_false (by decide)⟩
    rw [text, ipv6Text]
    dsimp only
    refine hinside ?_
    split_ifs
    · exact not_endsAuthority_of_mem_groupsText
    · rw [List.forall_mem_append, List.forall_mem_append]
      exact ⟨⟨not_endsAuthority_of_mem_groupsText, Text.forall_eq_false (by decide)⟩,
        not_endsAuthority_of_mem_groupsText⟩

end Url.Host

/-! ## Hosts read back -/

namespace Text

/-- Without a mark there is no last one to cut at. -/
theorem splitAtLast?_eq_none {α : Type} {p : α → Bool} {l : List α} (h : ∀ a ∈ l, p a = false) :
    splitAtLast? p l = none := by
  have htail : l.reverse.takeWhile (fun a => !p a) = l.reverse := by
    rw [List.takeWhile_eq_self_iff]
    intro a ha
    rw [h a (List.mem_reverse.mp ha)]
    rfl
  rw [splitAtLast?, htail, List.drop_length]

theorem mem_of_splitAtLast?_eq_some {α : Type} {p : α → Bool} {l front tail : List α}
    (h : splitAtLast? p l = some (front, tail)) : ∀ a ∈ tail, a ∈ l := by
  rw [splitAtLast?] at h
  split at h
  · exact nomatch h
  · intro a ha
    rw [← (Prod.mk.inj (Option.some.inj h)).2, List.mem_reverse] at ha
    exact List.mem_reverse.mp (List.takeWhile_subset _ ha)

end Text

namespace Url

/-- A name stands alone in an authority. -/
theorem hostOfAuthority_eq_self {name : List Char}
    (h : ∀ c ∈ name, Host.isForbiddenInDomain c = false) : hostOfAuthority name = name := by
  have hnot : ∀ d, Host.isForbiddenInDomain d = true → d ∉ name := by
    intro d hd hmem
    exact absurd (h d hmem) (by rw [hd]; decide)
  have hat : Text.splitAtLast? (· = '@') name = none := by
    refine Text.splitAtLast?_eq_none fun c hc => ?_
    have hne : c ≠ '@' := fun heq => hnot '@' (by decide) (heq ▸ hc)
    simpa using hne
  rw [hostOfAuthority, hat]
  dsimp only
  split
  next rest heq => exact absurd (heq ▸ List.mem_cons_self) (hnot '[' (by decide))
  next =>
    rw [List.takeWhile_eq_self_iff]
    intro c hc
    have hne : c ≠ ':' := fun heq => hnot ':' (by decide) (heq ▸ hc)
    simpa using hne

/-- The host in an authority is written with what the authority is written with, and brackets. -/
theorem mem_hostOfAuthority {authority : List Char} :
    ∀ c ∈ hostOfAuthority authority, c ∈ authority ∨ c = '[' ∨ c = ']' := by
  have hbracket : ∀ rest : List Char, ∀ c ∈ '[' :: (rest.takeWhile (· ≠ ']') ++ [']']),
      c ∈ '[' :: rest ∨ c = '[' ∨ c = ']' := by
    intro rest c hc
    rcases List.mem_cons.mp hc with rfl | hc
    · exact Or.inr (Or.inl rfl)
    · rcases List.mem_append.mp hc with hc | hc
      · exact Or.inl (List.mem_cons_of_mem _ (List.takeWhile_subset _ hc))
      · exact Or.inr (Or.inr (List.mem_singleton.mp hc))
  intro c hc
  rw [hostOfAuthority] at hc
  cases hcut : Text.splitAtLast? (· = '@') authority with
  | none =>
    rw [hcut] at hc
    dsimp only at hc
    split at hc
    next rest hplace =>
      rw [hplace]
      exact hbracket rest c hc
    · exact Or.inl (List.takeWhile_subset _ hc)
  | some cut =>
    have hsubset := Text.mem_of_splitAtLast?_eq_some hcut
    rw [hcut] at hc
    dsimp only at hc
    split at hc
    next rest hplace =>
      rw [hplace] at hsubset
      exact (hbracket rest c hc).imp_left (hsubset c)
    · exact Or.inl (hsubset c (List.takeWhile_subset _ hc))

/-- The authority of a URL ends no path. -/
theorem not_endsPath_of_mem_authority {url : Url} {authority : List Char}
    (h : url.parts.authority? = some authority) : ∀ c ∈ authority, endsPath c = false := by
  rw [parts, Parts.ofText] at h
  dsimp only at h
  split at h
  · rw [← Option.some.inj h]
    intro c hc
    have hends := List.mem_takeWhile_imp hc
    rw [endsPath]
    rw [endsAuthority] at hends
    grind
  · exact nomatch h
  · exact nomatch h

/-- The host of a URL ends no path: it is cut out of what the authority ends. -/
theorem not_endsPath_of_mem_host (url : Url) : ∀ c ∈ url.host, endsPath c = false := by
  intro c hc
  rw [host] at hc
  split at hc
  next authority hauthority =>
    rcases mem_hostOfAuthority c hc with hmem | rfl | rfl
    · exact not_endsPath_of_mem_authority hauthority c hmem
    · rfl
    · rfl
  next => exact absurd hc List.not_mem_nil

/-- The path of a URL ends where a path ends. -/
theorem not_endsPath_of_mem_path (url : Url) : ∀ c ∈ url.path, endsPath c = false := by
  have huntil : ∀ cs : List Char, ∀ c ∈ untilQuery cs, endsPath c = false := by
    intro cs c hc
    simpa using List.mem_takeWhile_imp hc
  rw [path, parts, Parts.ofText]
  dsimp only
  split
  · exact huntil _
  · exact huntil _
  · exact huntil _

end Url

end WorkspaceSession
