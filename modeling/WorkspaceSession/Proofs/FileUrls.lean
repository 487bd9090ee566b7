/-
File URLs read back.

A session knows files by URL only, so two files with one URL would share a source. They do not:
decoding the path of a file's URL gives the components of the file's path back
(`Url.decode_filePath`), so paths with one URL have the same components
(`Url.components_eq_of_ofFilePath?`). What decoding does to a stretch of text does not depend on
what follows it, as long as no escape is cut in two; `Url.Percent.Reads` says that of one stretch,
and the proofs put stretches behind each other.
-/
import Mathlib.Tactic.Common
import WorkspaceSession.Proofs.PathNames
import WorkspaceSession.Url.FilePath

set_option autoImplicit false

namespace WorkspaceSession

namespace Text.Utf8

theorem encode_append (cs ds : List Char) : encode (cs ++ ds) = encode cs ++ encode ds :=
  List.flatMap_append

theorem encodeChar_of_lt {c : Char} (h : c.toNat < 0x80) : encodeChar c = [c.toNat.toUInt8] := by
  rw [encodeChar, if_pos h]

end Text.Utf8

namespace Url

namespace Percent

/-! ## Stretches of text -/

/-- A stretch of text that decodes to bytes, whatever follows it. -/
def Reads (cs : List Char) (bytes : Bytes) : Prop :=
  ∀ rest, decode (Text.Utf8.encode cs ++ rest) = bytes ++ decode rest

theorem reads_nil : Reads [] [] :=
  fun _ => rfl

theorem Reads.append {cs ds : List Char} {bytes bytes' : Bytes} (h : Reads cs bytes)
    (h' : Reads ds bytes') : Reads (cs ++ ds) (bytes ++ bytes') := by
  intro rest
  rw [Text.Utf8.encode_append, List.append_assoc, h, h', List.append_assoc]

theorem Reads.flatMap {α : Type} {l : List α} {text : α → List Char} {bytes : α → Bytes}
    (h : ∀ a ∈ l, Reads (text a) (bytes a)) : Reads (l.flatMap text) (l.flatMap bytes) := by
  induction l with
  | nil => exact reads_nil
  | cons a l ih =>
    rw [List.flatMap_cons, List.flatMap_cons]
    exact (h a List.mem_cons_self).append (ih fun b hb => h b (List.mem_cons_of_mem _ hb))

theorem Reads.decode_eq {cs : List Char} {bytes : Bytes} (h : Reads cs bytes) :
    decode (Text.Utf8.encode cs) = bytes := by
  have hend := h []
  rwa [List.append_nil, show decode [] = [] from rfl, List.append_nil] at hend

/-! ## Literals and escapes -/

/-- A byte that is no percent sign stands for itself. -/
theorem decode_cons {b : UInt8} (h : b ≠ 0x25) (rest : Bytes) :
    decode (b :: rest) = b :: decode rest := by
  -- Only with two bytes behind it `decode` looks whether `b` begins an escape.
  rcases rest with _ | ⟨x, _ | ⟨y, rest⟩⟩
  · rfl
  · rfl
  · rw [decode, escape?, if_neg h]

theorem reads_literal {c : Char} (h : c.toNat < 0x80) (hc : c.toNat ≠ 0x25) :
    Reads [c] [c.toNat.toUInt8] := by
  intro rest
  have hne : c.toNat.toUInt8 ≠ 0x25 := by
    intro heq
    have hnat := congrArg UInt8.toNat heq
    simp at hnat
    omega
  rw [Text.Utf8.encode, List.flatMap_cons, List.flatMap_nil, Text.Utf8.encodeChar_of_lt h]
  exact decode_cons hne rest

/-- A hexadecimal digit is written as one byte that has its value. -/
theorem encodeChar_hexDigit (n : Fin 16) :
    ∃ digit, Text.Utf8.encodeChar (hexDigit n) = [digit] ∧ hexValue? digit = some n := by
  refine ⟨(hexDigit n).toNat.toUInt8, ?_, ?_⟩
  · revert n
    decide
  · revert n
    decide

theorem reads_escape (b : UInt8) :
    Reads ['%', hexDigit (b.toNat / 16), hexDigit (b.toNat % 16)] [b] := by
  intro rest
  have hb : b.toNat < 256 := b.toNat_lt
  obtain ⟨high, hhigh, hhighValue⟩ := encodeChar_hexDigit ⟨b.toNat / 16, by omega⟩
  obtain ⟨low, hlow, hlowValue⟩ := encodeChar_hexDigit ⟨b.toNat % 16, by omega⟩
  have hvalue : (b.toNat / 16 * 16 + b.toNat % 16).toUInt8 = b := by
    rw [Nat.div_add_mod']
    exact UInt8.ofNat_toNat
  have hsign : Text.Utf8.encodeChar '%' = [0x25] := by decide
  simp only [Text.Utf8.encode, List.flatMap_cons, List.flatMap_nil, hsign, hhigh, hlow,
    List.cons_append, List.nil_append]
  rw [decode, escape?, if_pos rfl, hhighValue, hlowValue]
  exact congrArg (· :: decode rest) hvalue

/-- Encoded bytes read back, as long as the percent sign is encoded too. -/
theorem reads_encode {reserved : Reserved} (h : reserved '%' = true) (bytes : Bytes) :
    Reads (encode reserved bytes) bytes := by
  have hbyte : ∀ b ∈ bytes, Reads (encodeByte reserved b) [b] := by
    intro b _
    have hb : b.toNat < 256 := b.toNat_lt
    rw [encodeByte]
    -- A byte that is written as it is belongs to an ASCII character that is not reserved.
    split_ifs with hliteral
    · rw [Bool.and_eq_true, decide_eq_true_eq] at hliteral
      obtain ⟨hascii, hallowed⟩ := hliteral
      have hnat : (Char.ofNat b.toNat).toNat = b.toNat := by
        have hvalid : b.toNat.isValidChar := Or.inl (by omega)
        rw [Char.ofNat, dif_pos hvalid]
        rfl
      have hsign : b.toNat ≠ 0x25 := by
        intro heq
        rw [heq] at hallowed
        simp [h] at hallowed
      have hreads := reads_literal (c := Char.ofNat b.toNat) (by omega) (by omega)
      rwa [hnat, Nat.toUInt8, UInt8.ofNat_toNat] at hreads
    · exact reads_escape b
  have hall := Reads.flatMap hbyte
  rwa [List.flatMap_singleton'] at hall

end Percent

/-! ## Paths of file URLs -/

theorem reads_segmentOfComponent (component : Path.Component) :
    Percent.Reads (segmentOfComponent component) component.segment := by
  cases component with
  | root => exact Percent.reads_nil
  | current => exact Percent.reads_literal (by decide) (by decide)
  | parent =>
    exact (Percent.reads_literal (c := '.') (by decide) (by decide)).append
      (Percent.reads_literal (c := '.') (by decide) (by decide))
  | name bytes => exact Percent.reads_encode rfl bytes

/-- The path of a file's URL decodes to the components of the file's path. -/
theorem decode_filePath (path : Path) :
    Percent.decode (Text.Utf8.encode (filePath path)) = Path.rooted (path.components.drop 1) := by
  refine Percent.Reads.decode_eq ?_
  have hslash : Percent.Reads ['/'] [Path.separator] :=
    Percent.reads_literal (by decide) (by decide)
  rw [filePath]
  cases path.components.drop 1 with
  | nil => exact hslash
  | cons c rest =>
    exact Percent.Reads.flatMap fun c' _ => hslash.append (reads_segmentOfComponent c')

theorem ofFilePath?_eq_some {path : Path} {url : Url} :
    ofFilePath? path = some url
      ↔ path.isAbsolute = true ∧ url = ⟨String.ofList ("file://".toList ++ filePath path)⟩ := by
  rw [ofFilePath?]
  split_ifs with h
  · rw [Option.some.injEq]
    exact ⟨fun hurl => ⟨h, hurl.symm⟩, fun hurl => hurl.2.symm⟩
  · exact ⟨fun hurl => (nomatch hurl), fun hurl => absurd hurl.1 h⟩

/-- **One URL, one path.** Paths with the same URL have the same components. -/
theorem components_eq_of_ofFilePath? {p q : Path} {url : Url} (hp : ofFilePath? p = some url)
    (hq : ofFilePath? q = some url) : p.components = q.components := by
  obtain ⟨hpAbsolute, hpUrl⟩ := ofFilePath?_eq_some.mp hp
  obtain ⟨hqAbsolute, hqUrl⟩ := ofFilePath?_eq_some.mp hq
  have htext : filePath p = filePath q := by
    have h := congrArg Url.text (hpUrl.symm.trans hqUrl)
    exact List.append_cancel_left (String.ofList_injective h)
  have hrooted : Path.rooted (p.components.drop 1) = Path.rooted (q.components.drop 1) := by
    rw [← decode_filePath, ← decode_filePath, htext]
  -- The URL holds the components behind the root, and an absolute path has no others.
  have hback : ∀ {path : Path}, path.isAbsolute = true →
      (⟨Path.rooted (path.components.drop 1)⟩ : Path).components = path.components := by
    intro path habsolute
    rw [Path.components_rooted fun c hc => Path.isPlain_of_mem_components habsolute hc,
      Path.components_of_isAbsolute habsolute, List.drop_one, List.tail_cons]
  rw [← hback hpAbsolute, ← hback hqAbsolute, hrooted]

end Url

end WorkspaceSession
