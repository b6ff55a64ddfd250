import Bridget.Foundation.Text

/-!
# Paths that match a pattern

A star of a pattern stands for any text. The pieces between the stars are looked for from the
left, each one where it occurs first, and the last one at the end of the path.
-/

namespace Bridget.Observation

open Foundation

/-- `str::find`: what follows the first occurrence of a segment. -/
def afterFirst (segment rest : List Char) : Option (List Char) :=
  if segment.isPrefixOf rest then some (rest.drop segment.length)
  else
    match rest with
    | [] => none
    | _ :: rest => afterFirst segment rest

/-- The segments between two stars, then the one after the last star. -/
def matchesFrom : List (List Char) → List Char → Bool
  | [], _ => false
  | [last], rest => last.isSuffixOf rest
  | segment :: segments, rest => (afterFirst segment rest).any (matchesFrom segments)

def pathMatches (pattern path : String) : Bool :=
  match pattern.toList.splitOn '*' with
  | [] => false
  | [_] => pattern = path
  | first :: segments => (path.toList.dropPrefix? first).any (matchesFrom segments)

/-- The pieces in their order, with a text in the place of each star. -/
def weave : List (List Char) → List (List Char) → List Char
  | [], _ => []
  | piece :: _, [] => piece
  | piece :: pieces, star :: stars => piece ++ star ++ weave pieces stars

variable {segment rest tail : List Char}

theorem afterFirst_eq_some (h : afterFirst segment rest = some tail) :
    ∃ before, rest = before ++ segment ++ tail := by
  fun_induction afterFirst segment rest with
  | case1 _ hfirst =>
    obtain ⟨after, rfl⟩ := List.isPrefixOf_iff_prefix.mp hfirst
    rw [List.drop_left] at h
    exact ⟨[], by simp [Option.some.inj h]⟩
  | case2 => cases h
  | case3 c _ _ ih =>
    obtain ⟨before, rfl⟩ := ih h
    exact ⟨c :: before, rfl⟩

/-- The first occurrence leaves the most: what follows another one is the end of its rest. -/
theorem afterFirst_append (before segment tail : List Char) :
    ∃ skipped, afterFirst segment (before ++ segment ++ tail) = some (skipped ++ tail) := by
  induction before with
  | nil =>
    unfold afterFirst
    exact ⟨[], by simp⟩
  | cons c before ih =>
    unfold afterFirst
    split
    · refine ⟨(c :: before ++ segment).drop segment.length, ?_⟩
      rw [List.drop_append_of_le_length]
      simp only [List.length_append]
      omega
    · exact ih

theorem matchesFrom_iff {segments : List (List Char)} (hne : segments ≠ []) :
    matchesFrom segments rest = true ↔ ∃ star stars, stars.length + 1 = segments.length ∧
      rest = star ++ weave segments stars := by
  induction segments generalizing rest with
  | nil => exact absurd rfl hne
  | cons segment segments ih =>
    cases segments with
    | nil => simp [matchesFrom, List.IsSuffix, weave, @eq_comm _ rest]
    | cons next segments =>
      simp only [matchesFrom, Option.any_eq_true]
      constructor
      · rintro ⟨tail, hafter, hmatches⟩
        obtain ⟨before, rfl⟩ := afterFirst_eq_some hafter
        obtain ⟨star, stars, hlength, rfl⟩ := (ih (by simp)).mp hmatches
        exact ⟨before, star :: stars, by simpa using hlength, by simp [weave]⟩
      rintro ⟨before, _ | ⟨star, stars⟩, hlength, rfl⟩
      · simp at hlength
      -- the first occurrence gives the next star what it leaves over
      obtain ⟨skipped, hafter⟩ :=
        afterFirst_append before segment (star ++ weave (next :: segments) stars)
      refine ⟨_, by simpa [weave] using hafter, (ih (by simp)).mpr ?_⟩
      exact ⟨skipped ++ star, stars, by simpa using hlength, by simp⟩

/-- A path matches exactly when it is the pieces of the pattern with some text at each star. -/
theorem path_matches_is_glob (pattern path : String) :
    (pathMatches pattern path = true ↔ ∃ stars : List (List Char),
      stars.length + 1 = (pattern.toList.splitOn '*').length ∧
      path.toList = weave (pattern.toList.splitOn '*') stars) ∧
    ('*' ∉ pattern.toList → (pathMatches pattern path = true ↔ path = pattern)) := by
  have hwhole : List.intercalate ['*'] (pattern.toList.splitOn '*') = pattern.toList :=
    List.intercalate_splitOn _
  constructor
  · unfold pathMatches
    cases hpieces : pattern.toList.splitOn '*' with
    | nil => exact absurd hpieces (List.splitOnP_ne_nil _ _)
    | cons first segments =>
      cases segments with
      | nil =>
        rw [hpieces, List.intercalate_singleton] at hwhole
        simp [weave, hwhole, String.ext_iff, @eq_comm _ path.toList]
      | cons next segments =>
        simp only [Option.any_eq_true, matchesFrom_iff (List.cons_ne_nil next segments),
          List.dropPrefix?_eq_some_iff, beq_iff_eq]
        constructor
        · rintro ⟨_, ⟨_, hpath, rfl⟩, star, stars, hlength, rfl⟩
          exact ⟨star :: stars, by simpa using hlength, by simp [hpath, weave]⟩
        · rintro ⟨_ | ⟨star, stars⟩, hlength, hpath⟩
          · simp at hlength
          · exact ⟨_, ⟨first, by simpa [weave] using hpath, rfl⟩, star, stars,
              by simpa using hlength, rfl⟩
  · intro hplain
    have hpiece : pattern.toList.splitOn '*' = [pattern.toList] :=
      List.splitOnP_eq_singleton (by aesop)
    simp [pathMatches, hpiece, eq_comm]

end Bridget.Observation
