import Mathlib

/-!
# The `LIKE` operator

`LIKE` of SQLite with an escape character: `%` stands for any text, `_` for one character,
the escape character takes the next one literally, and ASCII letters match in either case.
A pattern made of literal characters and a final `%` matches the texts that begin with them.
-/

namespace Bridget.Foundation

inductive LikeToken where
  | any
  | one
  | literal (c : Char)

/-- A pattern that ends with a lone escape character matches nothing. -/
def likeTokens (escape : Char) : List Char → Option (List LikeToken)
  | [] => some []
  | [c] =>
    if c = escape then none
    else some [if c = '%' then .any else if c = '_' then .one else .literal c]
  | c :: d :: rest =>
    if c = escape then (likeTokens escape rest).map (.literal d :: ·)
    else (likeTokens escape (d :: rest)).map
      ((if c = '%' then .any else if c = '_' then .one else .literal c) :: ·)

/-- The case of an ASCII letter does not matter. -/
def foldCase (c : Char) : Char := c.toLower

theorem foldCase_of_not_upper {c : Char} (h : c.toNat < 65 ∨ 90 < c.toNat) : foldCase c = c := by
  unfold foldCase Char.toLower
  rw [dif_neg]
  rintro ⟨hlow, hhigh⟩
  have hlow' : 65 ≤ c.toNat := UInt32.le_iff_toNat_le.mp hlow
  have hhigh' : c.toNat ≤ 90 := UInt32.le_iff_toNat_le.mp hhigh
  omega

def likeMatches : List LikeToken → List Char → Bool
  | [], text => text.isEmpty
  | .any :: rest, text => text.tails.any (likeMatches rest)
  | .one :: rest, _ :: text => likeMatches rest text
  | .literal c :: rest, d :: text => foldCase c = foldCase d && likeMatches rest text
  | _ :: _, [] => false

/-- `text LIKE pattern ESCAPE escape`. -/
def like (escape : Char) (pattern text : String) : Bool :=
  match likeTokens escape pattern.toList with
  | some tokens => likeMatches tokens text.toList
  | none => false

variable {rest text letters : List Char}

theorem likeTokens_plain {escape c : Char} (hescape : c ≠ escape)
    (hany : c ≠ '%') (hone : c ≠ '_') :
    likeTokens escape (c :: rest) = (likeTokens escape rest).map (.literal c :: ·) := by
  cases rest with
  | nil | cons => simp [likeTokens, hescape, hany, hone]

theorem likeMatches_any : likeMatches [.any] text = true := by
  simp [likeMatches, List.any_eq_true, List.mem_tails]

/-- Literal characters before a final `%` are a beginning of the text, up to case. -/
theorem likeMatches_literals_any :
    likeMatches (letters.map .literal ++ [.any]) text = true ↔
      letters.map foldCase <+: text.map foldCase := by
  induction letters generalizing text with
  | nil => simp [likeMatches_any]
  | cons _ _ ih =>
    cases text with
    | nil => simp [likeMatches]
    | cons => simp [likeMatches, ih, List.cons_prefix_cons]

/-- `str::replace` of a character. -/
def replaceChar (c : Char) (replacement text : String) : String :=
  String.ofList (text.toList.flatMap fun d => if d = c then replacement.toList else [d])

/-- The special characters of `LIKE`, taken literally with a backslash. -/
def escapeLike (text : String) : String :=
  replaceChar '_' "\\_" (replaceChar '%' "\\%" (replaceChar '\\' "\\\\" text))

theorem escapeLike_toList {text : String} :
    (escapeLike text).toList = text.toList.flatMap fun c =>
      if c = '\\' ∨ c = '%' ∨ c = '_' then ['\\', c] else [c] := by
  simp only [escapeLike, replaceChar, String.toList_ofList, List.flatMap_assoc]
  congr 1
  funext c
  by_cases hslash : c = '\\'
  · subst hslash
    decide
  by_cases hany : c = '%'
  · subst hany
    decide
  · by_cases hone : c = '_'
    · subst hone
      decide
    · simp [hslash, hany, hone]

theorem likeTokens_escapeLike :
    likeTokens '\\' ((letters.flatMap fun c =>
        if c = '\\' ∨ c = '%' ∨ c = '_' then ['\\', c] else [c]) ++ rest) =
      (likeTokens '\\' rest).map (letters.map .literal ++ ·) := by
  induction letters with
  | nil => simp
  | cons _ _ ih =>
    rw [List.flatMap_cons, List.append_assoc]
    split
    · rw [List.cons_append, List.singleton_append, likeTokens, if_pos rfl, ih, Option.map_map]
      rfl
    next hplain =>
      rw [not_or, not_or] at hplain
      rw [List.singleton_append, likeTokens_plain hplain.1 hplain.2.1 hplain.2.2, ih,
        Option.map_map]
      rfl

/-- An escaped text before `/%` is the beginning of a path, up to case. -/
theorem like_below_iff {path text : String} :
    like '\\' (escapeLike path ++ "/%") text = true ↔
      (path.toList ++ ['/']).map foldCase <+: text.toList.map foldCase := by
  have htokens : likeTokens '\\' (escapeLike path ++ "/%").toList =
      some ((path.toList ++ ['/']).map .literal ++ [.any]) := by
    rw [String.toList_append, escapeLike_toList, likeTokens_escapeLike]
    simp [likeTokens]
  rw [like, htokens]
  exact likeMatches_literals_any

end Bridget.Foundation
