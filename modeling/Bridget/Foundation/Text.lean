import Mathlib

/-!
# Texts

Texts and their bytes, decimal digits, blank texts, characters that no guarded value may hold,
the shapes of identifiers and paths, and texts that are split at a separator.
-/

namespace Bridget.Foundation

abbrev Bytes := List UInt8

/-- `str::as_bytes`. -/
def utf8 (text : String) : Bytes := text.toUTF8.data.toList

theorem utf8_injective : Function.Injective utf8 := by
  intro _ _ h
  apply String.toByteArray_inj.mp
  apply ByteArray.ext
  apply Array.toList_inj.mp
  simpa only [utf8, String.toUTF8_eq_toByteArray] using h

/-- `u8::is_ascii_digit`. -/
def isAsciiDigit (byte : UInt8) : Bool := 0x30 ≤ byte && byte ≤ 0x39

theorem isDigit_range {c : Char} (h : c.isDigit = true) : 48 ≤ c.toNat ∧ c.toNat ≤ 57 := by
  simpa [Char.isDigit, UInt32.le_iff_toNat_le] using h

/-- `char::is_whitespace`. -/
def isWhitespace (c : Char) : Bool :=
  let n := c.toNat
  (9 ≤ n && n ≤ 13) || n = 0x20 || n = 0x85 || n = 0xA0 || n = 0x1680 ||
    (0x2000 ≤ n && n ≤ 0x200A) || n = 0x2028 || n = 0x2029 || n = 0x202F || n = 0x205F || n = 0x3000

/-- `trim().is_empty()`. -/
def isBlank (text : String) : Bool := text.toList.all isWhitespace

/-- `char::is_control`: the Unicode category `Cc`. -/
def isControl (c : Char) : Bool := c.toNat ≤ 0x1F || (0x7F ≤ c.toNat && c.toNat ≤ 0x9F)

/-- The format characters that can make a text look like another one. -/
def isFormatCharacter (c : Char) : Bool :=
  [(0xAD, 0xAD), (0x61C, 0x61C), (0x6DD, 0x6DD), (0x70F, 0x70F), (0x890, 0x891), (0x8E2, 0x8E2),
    (0x180E, 0x180E), (0x200B, 0x200F), (0x202A, 0x202E), (0x2060, 0x2064), (0x2066, 0x206F),
    (0xFEFF, 0xFEFF), (0xFFF9, 0xFFFB), (0x110BD, 0x110BD), (0x110CD, 0x110CD),
    (0x13430, 0x1345F), (0x1BCA0, 0x1BCA3), (0x1D173, 0x1D17A), (0xE0001, 0xE0001),
    (0xE0020, 0xE007F), (0xFE00, 0xFE0F), (0xE0100, 0xE01EF), (0x600, 0x605),
    (0x2065, 0x2065)].any fun (low, high) => low ≤ c.toNat && c.toNat ≤ high

/-- Control and format characters: nothing that deceives a human reader passes a guard. -/
def isDisallowedControl (c : Char) : Bool := isControl c || isFormatCharacter c

/-- A text of bounded length that is not empty and deceives no reader. -/
def validAtom (value : String) (max : Nat) : Bool :=
  value != "" && value.utf8ByteSize ≤ max && !value.toList.any isDisallowedControl

def isLowercaseHex (c : Char) : Bool := c.isDigit || ('a' ≤ c && c ≤ 'f')

/-- A SHA-256 in hexadecimal of lower case. -/
def validDigest (value : String) : Bool :=
  value.utf8ByteSize = 64 && value.toList.all isLowercaseHex

/-- `Path::is_absolute`. -/
def isAbsolute (path : String) : Bool := path.toList.head? = some '/'

/-- A UUID as `Uuid::hyphenated` writes it: 36 characters, hexadecimal in lower case. -/
def isLowercaseUuid (id : String) : Bool :=
  id.length = 36 && id.toList.zipIdx.all fun (c, i) =>
    if i = 8 || i = 13 || i = 18 || i = 23 then c = '-' else isLowercaseHex c

/-- It reads as a UUID, its version digit is 4, and writing it gives the same text again. -/
def isCanonicalUuidV4 (id : String) : Bool := isLowercaseUuid id && id.toList[14]? = some '4'

/-- `str::split` at a character. -/
def split (separator : Char) (text : String) : List String :=
  (text.toList.splitOn separator).map String.ofList

variable {separator : Char}

theorem split_intercalate {parts : List String} (hne : parts ≠ [])
    (hparts : ∀ part ∈ parts, separator ∉ part.toList) :
    split separator ((String.singleton separator).intercalate parts) = parts := by
  unfold split
  rw [String.toList_intercalate, String.toList_singleton, List.splitOn_intercalate]
  · rw [List.map_map]
    exact (List.map_congr_left fun part _ => String.ofList_toList).trans (List.map_id parts)
  · intro _ hletters
    obtain ⟨part, hpart, rfl⟩ := List.mem_map.mp hletters
    exact hparts part hpart
  · simpa using hne

theorem split_ne_nil {text : String} : split separator text ≠ [] := by
  simp [split, List.splitOn, List.splitOnP_ne_nil]

theorem split_append {a b : String} :
    split separator (a ++ String.singleton separator ++ b) =
      split separator a ++ split separator b := by
  simp [split, List.splitOn, List.splitOnP_append_cons]

/-- Separators inside the parts only add to the number of pieces. -/
theorem length_le_split_intercalate {parts : List String} :
    parts.length ≤ (split separator ((String.singleton separator).intercalate parts)).length := by
  induction parts with
  | nil => simp
  | cons part rest =>
    cases rest with
    | nil => exact List.length_pos_iff.mpr split_ne_nil
    | cons =>
      rw [String.intercalate_cons_cons, split_append, List.length_append, List.length_cons]
      have hpart : 0 < (split separator part).length := List.length_pos_iff.mpr split_ne_nil
      omega

end Bridget.Foundation
