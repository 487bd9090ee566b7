/-
Texts and their bytes.

UTF-8 keeps the order of texts: two texts compare as their bytes do, so what is sorted by its text
is sorted by its bytes. The reason is in the first byte of a character, which is the larger the more
bytes the character takes, and among characters of one length the bytes are the digits of the
number, the highest digit first (`Text.Utf8.encodeChar_append_lt`). What keeps a strict order tells
texts apart, so bytes determine the text.
-/
import Mathlib.Data.String.Basic
import Mathlib.Tactic.SplitIfs
import WorkspaceSession.Text.Utf8

set_option autoImplicit false

namespace WorkspaceSession

namespace Text.Utf8

/-! ## One character -/

theorem toUInt8_eq_iff (m n : Nat) : m.toUInt8 = n.toUInt8 ↔ m % 256 = n % 256 := by
  simp only [← UInt8.toNat_inj, Nat.toUInt8, UInt8.toNat_ofNat']

theorem toUInt8_lt_iff (m n : Nat) : m.toUInt8 < n.toUInt8 ↔ m % 256 < n % 256 := by
  simp only [UInt8.lt_iff_toNat_lt, Nat.toUInt8, UInt8.toNat_ofNat']

theorem toNat_lt (c : Char) : c.toNat < 0x110000 := by
  rcases c.valid with h | h
  · have hsmall : c.toNat < 0xD800 := h
    omega
  · exact h.2

/-- Of two characters the bytes of the larger one are larger, whatever follows them. -/
theorem encodeChar_append_lt {c d : Char} (h : c < d) (bytes bytes' : Bytes) :
    encodeChar c ++ bytes < encodeChar d ++ bytes' := by
  have hd := toNat_lt d
  have hlt : c.toNat < d.toNat := h
  -- The digits above the last two, of which one may be the first that differs.
  have htop : c.toNat / 0x40000 ≤ d.toNat / 0x40000 := Nat.div_le_div_right hlt.le
  have hnext : c.toNat / 0x1000 ≤ d.toNat / 0x1000 := Nat.div_le_div_right hlt.le
  rw [encodeChar, encodeChar]
  split_ifs <;>
    simp only [List.cons_append, List.nil_append, List.cons_lt_cons_iff, toUInt8_lt_iff,
      toUInt8_eq_iff]
  all_goals
    rcases htop.lt_or_eq with htop | htop
    · omega
    · rcases hnext.lt_or_eq with hnext | hnext
      · omega
      · omega

/-! ## Texts -/

theorem encodeChar_ne_nil (c : Char) : encodeChar c ≠ [] := by
  rw [encodeChar]
  split_ifs <;> exact List.cons_ne_nil _ _

theorem encode_cons (c : Char) (cs : List Char) : encode (c :: cs) = encodeChar c ++ encode cs :=
  rfl

/-- **UTF-8 keeps the order.** -/
theorem encode_lt_encode {cs ds : List Char} (h : cs < ds) : encode cs < encode ds := by
  induction cs generalizing ds with
  | nil =>
    cases ds with
    | nil => exact absurd h (List.lt_irrefl _)
    | cons d ds =>
      obtain ⟨b, rest, hd⟩ := List.exists_cons_of_ne_nil (encodeChar_ne_nil d)
      rw [encode_cons, hd]
      exact List.nil_lt_cons _ _
  | cons c cs ih =>
    cases ds with
    | nil => exact absurd h (List.not_lt_nil _)
    | cons d ds =>
      rw [encode_cons, encode_cons]
      rcases List.cons_lt_cons_iff.mp h with hchar | ⟨rfl, hrest⟩
      · exact encodeChar_append_lt hchar _ _
      · exact List.append_left_lt (ih hrest)

end Text.Utf8

namespace Bytes

theorem ofString_lt_ofString {s t : String} (h : s < t) : ofString s < ofString t :=
  Text.Utf8.encode_lt_encode (String.lt_iff_toList_lt.mp h)

/-- Different texts have different bytes. -/
theorem ofString_injective {s t : String} (h : ofString s = ofString t) : s = t := by
  by_contra hne
  rcases lt_or_gt_of_ne hne with hlt | hgt
  · exact List.lt_irrefl _ (h ▸ ofString_lt_ofString hlt)
  · exact List.lt_irrefl _ (h ▸ ofString_lt_ofString hgt)

end Bytes

end WorkspaceSession
