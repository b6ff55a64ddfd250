import Bridget.Foundation.Bounded
import Bridget.Foundation.Text

/-!
# Numbers in texts

The decimal text of a signed number is read back as the number, also when blanks surround it.
-/

namespace Bridget.Foundation

/-- `std::str::from_utf8`. -/
def fromUtf8 (bytes : Bytes) : Option (List Char) :=
  (String.fromUTF8? ⟨bytes.toArray⟩).map String.toList

theorem fromUtf8_utf8 (text : String) : fromUtf8 (utf8 text) = some text.toList := by
  have hbytes : (⟨(utf8 text).toArray⟩ : ByteArray) = text.toByteArray := by
    rw [utf8, String.toUTF8_eq_toByteArray]
  rw [fromUtf8, hbytes, String.fromUTF8?, dif_pos text.isValidUTF8]
  rfl

theorem utf8_append (a b : String) : utf8 (a ++ b) = utf8 a ++ utf8 b := by
  simp only [utf8, String.toUTF8_eq_toByteArray, String.toByteArray_append,
    ByteArray.toList_data_append]

/-- `str::trim`. -/
def trim (text : List Char) : List Char := (text.dropWhile isWhitespace).rdropWhile isWhitespace

theorem trim_eq_self {text : List Char} (h : ∀ c ∈ text, isWhitespace c = false) :
    trim text = text := by
  have hdrop : text.dropWhile isWhitespace = text := by
    cases text with
    | nil => rfl
    | cons c => rw [List.dropWhile_cons_of_neg (by simp [h c])]
  rw [trim, hdrop, List.rdropWhile_eq_self_iff]
  intro hne
  simp [h _ (List.getLast_mem hne)]

def parseDigits (digits : List Char) : Option Nat :=
  if digits ≠ [] ∧ digits.all Char.isDigit then some (Nat.ofDigitChars 10 digits 0) else none

/-- `str::parse::<i64>`. -/
def parseI64 (text : List Char) : Option Int :=
  let value : Option Int :=
    match text with
    | '-' :: digits => (parseDigits digits).map fun n => -(n : Int)
    | '+' :: digits => (parseDigits digits).map fun n => (n : Int)
    | digits => (parseDigits digits).map fun n => (n : Int)
  value.filter fun n => i64Min ≤ n ∧ n ≤ i64Max

/-- A number with at least so many places, its sign included. -/
def padded (places : Nat) (n : Int) : String :=
  let digits := toString n.natAbs
  let sign := if n < 0 then "-" else ""
  sign ++ String.ofList (List.replicate (places - sign.length - digits.length) '0') ++ digits

theorem parseDigits_repr (n : Nat) : parseDigits n.repr.toList = some n := by
  have hdigits : (Nat.toDigits 10 n).all Char.isDigit = true :=
    List.all_eq_true.mpr fun _ hc => Nat.isDigit_of_mem_toDigits (by decide) (by decide) hc
  rw [Nat.repr_eq_ofList_toDigits, String.toList_ofList, parseDigits,
    if_pos ⟨Nat.toDigits_ne_nil, hdigits⟩, Nat.ofDigitChars_ten_toDigits]

theorem repr_injective : Function.Injective Nat.repr := by
  intro a b h
  have hparsed := parseDigits_repr a
  rw [h, parseDigits_repr b] at hparsed
  exact (Option.some.inj hparsed).symm

theorem isDigit_of_mem_repr {n : Nat} {c : Char} (h : c ∈ n.repr.toList) : c.isDigit = true := by
  rw [Nat.repr_eq_ofList_toDigits, String.toList_ofList] at h
  exact Nat.isDigit_of_mem_toDigits (by decide) (by decide) h

theorem toString_negSucc (n : Nat) : toString (Int.negSucc n) = "-" ++ (n + 1).repr := rfl

theorem mem_toString {n : Int} {c : Char} (h : c ∈ (toString n).toList) :
    c = '-' ∨ c.isDigit = true := by
  cases n with
  | ofNat => exact .inr (isDigit_of_mem_repr h)
  | negSucc =>
    rw [toString_negSucc, String.toList_append, List.mem_append] at h
    obtain hsign | hdigit := h
    · exact .inl (by simpa using hsign)
    · exact .inr (isDigit_of_mem_repr hdigit)

theorem toString_int_injective : Function.Injective (toString : Int → String) := by
  have hsign : ∀ m n : Nat, m.repr ≠ "-" ++ (n + 1).repr := by
    intro m n h
    have hmem : '-' ∈ m.repr.toList := by
      rw [h, String.toList_append]
      simp
    exact absurd (isDigit_of_mem_repr hmem) (by decide)
  intro a b h
  cases a with
  | ofNat m =>
    cases b with
    | ofNat => exact congrArg Int.ofNat (repr_injective h)
    | negSucc n => exact absurd h (hsign m n)
  | negSucc m =>
    cases b with
    | ofNat n => exact absurd h.symm (hsign n m)
    | negSucc =>
      rw [toString_negSucc, toString_negSucc, String.append_right_inj] at h
      have hsucc := repr_injective h
      rw [Nat.succ.inj hsucc]

theorem parseI64_toString {n : Int} (hlow : i64Min ≤ n) (hhigh : n ≤ i64Max) :
    parseI64 (toString n).toList = some n := by
  cases n with
  | ofNat n =>
    have hparse := parseDigits_repr n
    have hdigits : ∀ c ∈ n.repr.toList, c.isDigit = true := fun c hc => isDigit_of_mem_repr hc
    change parseI64 n.repr.toList = _
    generalize n.repr.toList = text at hparse hdigits
    unfold parseI64
    split
    · exact absurd (hdigits '-' List.mem_cons_self) (by decide)
    · exact absurd (hdigits '+' List.mem_cons_self) (by decide)
    · rw [hparse]
      exact Option.filter_eq_some_iff.mpr ⟨rfl, decide_eq_true ⟨hlow, hhigh⟩⟩
  | negSucc n =>
    have htext : (toString (Int.negSucc n)).toList = '-' :: (n + 1).repr.toList := by
      rw [toString_negSucc, String.toList_append]
      rfl
    rw [htext]
    simp only [parseI64, parseDigits_repr]
    exact Option.filter_eq_some_iff.mpr ⟨rfl, decide_eq_true ⟨hlow, hhigh⟩⟩

end Bridget.Foundation
