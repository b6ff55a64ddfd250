import Mathlib

/-!
# Lines of a text that grows

A list is cut at a separator into the lines that the separator ends and an unfinished rest.
Appending to the list only ever continues the unfinished rest: the lines that were complete
stay as they are, at their places.
-/

namespace Bridget.Foundation

variable {α : Type} [DecidableEq α] (sep : α)

/-- The lines that are ended by the separator. -/
def completeLines (xs : List α) : List (List α) := (xs.splitOn sep).dropLast

/-- What follows the last separator. -/
def unfinished (xs : List α) : List α := (xs.splitOn sep).getLast?.getD []

/-- `str::lines`: a carriage return goes with the newline that follows it. -/
def lines (carriageReturn : α) (xs : List α) : List (List α) :=
  (completeLines sep xs).map (fun line =>
    if line.getLast? = some carriageReturn then line.dropLast else line) ++
  if unfinished sep xs = [] then [] else [unfinished sep xs]

/-- The first line and what follows it, once the line is ended. -/
def firstLine (xs : List α) : Option (List α × List α) :=
  if sep ∈ xs then some (xs.takeWhile (· ≠ sep), (xs.dropWhile (· ≠ sep)).tail) else none

variable {sep} {xs ys line : List α}

theorem firstLine_of_not_mem (h : sep ∉ xs) : firstLine sep xs = none := if_neg h

theorem not_mem_of_firstLine_eq_none (h : firstLine sep xs = none) : sep ∉ xs := by
  intro hsep
  rw [firstLine, if_pos hsep] at h
  cases h

theorem firstLine_line (h : sep ∉ line) : firstLine sep (line ++ sep :: xs) = some (line, xs) := by
  have hall : ∀ a ∈ line, decide (a ≠ sep) = true := by
    intro a ha
    simpa using ne_of_mem_of_not_mem ha h
  rw [firstLine, if_pos (by simp), List.takeWhile_append_of_pos hall,
    List.dropWhile_append_of_pos hall]
  simp

theorem firstLine_eq_some {rest : List α} (h : firstLine sep xs = some (line, rest)) :
    sep ∉ line ∧ xs = line ++ sep :: rest := by
  by_cases hsep : sep ∈ xs
  · obtain ⟨_, _, rfl, hfirst⟩ := List.eq_append_cons_of_mem hsep
    rw [firstLine_line hfirst] at h
    cases h
    exact ⟨hfirst, rfl⟩
  · rw [firstLine_of_not_mem hsep] at h
    cases h

theorem completeLines_of_not_mem (h : sep ∉ xs) : completeLines sep xs = [] := by
  rw [completeLines, List.splitOn_eq_singleton h]
  rfl

theorem unfinished_of_not_mem (h : sep ∉ xs) : unfinished sep xs = xs := by
  rw [unfinished, List.splitOn_eq_singleton h]
  rfl

theorem completeLines_line (h : sep ∉ line) :
    completeLines sep (line ++ sep :: xs) = line :: completeLines sep xs := by
  rw [completeLines, List.splitOn_append_cons_self_of_not_mem h,
    List.dropLast_cons_of_ne_nil (List.splitOn_ne_nil sep xs), completeLines]

theorem unfinished_line (h : sep ∉ line) :
    unfinished sep (line ++ sep :: xs) = unfinished sep xs := by
  rw [unfinished, List.splitOn_append_cons_self_of_not_mem h,
    List.getLast?_cons_of_ne_nil (List.splitOn_ne_nil sep xs), unfinished]

theorem lines_two {carriageReturn : α} {first second : List α} (hfirst : sep ∉ first)
    (hsecond : sep ∉ second) (hfirst' : carriageReturn ∉ first)
    (hsecond' : carriageReturn ∉ second) :
    lines sep carriageReturn (first ++ sep :: (second ++ [sep])) = [first, second] := by
  have hkept : ∀ line : List α, carriageReturn ∉ line →
      (if line.getLast? = some carriageReturn then line.dropLast else line) = line := by
    intro line hline
    exact if_neg fun hlast => hline (List.mem_of_getLast? hlast)
  rw [lines, completeLines_line hfirst, completeLines_line hsecond, unfinished_line hfirst,
    unfinished_line hsecond, completeLines_of_not_mem List.not_mem_nil,
    unfinished_of_not_mem List.not_mem_nil]
  simp [hkept _ hfirst', hkept _ hsecond']

theorem lineInduction (sep : α) {motive : List α → Prop} (xs : List α)
    (rest : ∀ xs, sep ∉ xs → motive xs)
    (line : ∀ line xs, sep ∉ line → motive xs → motive (line ++ sep :: xs)) : motive xs := by
  induction hlength : xs.length using Nat.strongRecOn generalizing xs with
  | ind _ ih =>
    by_cases hsep : sep ∈ xs
    · obtain ⟨first, others, rfl, hfirst⟩ := List.eq_append_cons_of_mem hsep
      apply line first others hfirst
      apply ih others.length _ others rfl
      simp only [List.length_append, List.length_cons] at hlength
      omega
    · exact rest xs hsep

theorem completeLines_append (xs ys : List α) :
    completeLines sep (xs ++ ys) =
      completeLines sep xs ++ completeLines sep (unfinished sep xs ++ ys) := by
  induction xs using lineInduction sep with
  | rest _ hxs => simp [completeLines_of_not_mem hxs, unfinished_of_not_mem hxs]
  | line _ _ hline ih =>
    rw [List.append_assoc, List.cons_append, completeLines_line hline, completeLines_line hline,
      unfinished_line hline, ih, List.cons_append]

theorem unfinished_append (xs ys : List α) :
    unfinished sep (xs ++ ys) = unfinished sep (unfinished sep xs ++ ys) := by
  induction xs using lineInduction sep with
  | rest _ hxs => rw [unfinished_of_not_mem hxs]
  | line _ _ hline ih =>
    rw [List.append_assoc, List.cons_append, unfinished_line hline, unfinished_line hline, ih]

theorem not_mem_unfinished (xs : List α) : sep ∉ unfinished sep xs := by
  induction xs using lineInduction sep with
  | rest _ hxs => rwa [unfinished_of_not_mem hxs]
  | line _ _ hline => rwa [unfinished_line hline]

def linesLength (lines : List (List α)) : Nat := (lines.map fun line => line.length + 1).sum

omit [DecidableEq α] in
theorem linesLength_cons (line : List α) (lines : List (List α)) :
    linesLength (line :: lines) = line.length + 1 + linesLength lines := rfl

variable (sep) in
theorem linesLength_add_unfinished (xs : List α) :
    linesLength (completeLines sep xs) + (unfinished sep xs).length = xs.length := by
  induction xs using lineInduction sep with
  | rest _ hxs => simp [linesLength, completeLines_of_not_mem hxs, unfinished_of_not_mem hxs]
  | line _ _ hline =>
    rw [completeLines_line hline, unfinished_line hline, linesLength_cons, List.length_append,
      List.length_cons]
    omega

theorem unfinished_concat (xs : List α) : unfinished sep (xs ++ [sep]) = [] := by
  rw [unfinished_append, unfinished_line (not_mem_unfinished xs)]
  exact unfinished_of_not_mem List.not_mem_nil

theorem completeLines_concat (xs : List α) :
    completeLines sep (xs ++ [sep]) = completeLines sep xs ++ [unfinished sep xs] := by
  rw [completeLines_append, completeLines_line (not_mem_unfinished xs),
    completeLines_of_not_mem List.not_mem_nil]

/-- What stands behind the last separator tells the text apart. -/
theorem append_sep_inj {xs' ys' : List α} (hys : sep ∉ ys) (hys' : sep ∉ ys')
    (h : xs ++ sep :: ys = xs' ++ sep :: ys') : xs = xs' ∧ ys = ys' := by
  have hlast : ∀ xs ys : List α, sep ∉ ys → unfinished sep (xs ++ sep :: ys) = ys := by
    intro xs ys hys
    rw [List.append_cons, unfinished_append, unfinished_concat, List.nil_append,
      unfinished_of_not_mem hys]
  have heq : ys = ys' := by rw [← hlast xs ys hys, h, hlast xs' ys' hys']
  subst heq
  exact ⟨List.append_cancel_right h, rfl⟩

end Bridget.Foundation
