import Mathlib

/-!
# The rows of the input line

The text that is being edited is wrapped by the same rule as the lines of the log, in a loop of
its own that also finds the place of the cursor.
-/

namespace Bridget.Attach

variable (width : Char → Nat) (columns : Nat)

def byteLength (text : List Char) : Nat := (text.map Char.utf8Size).sum

def displayWidth (row : List Char) : Nat := (row.map width).sum

structure InputSnapshot where
  text : List Char
  cursorByte : Nat

/-- The rows that are full, and the one that is being filled. -/
structure Layout where
  rows : List (List Char) := []
  row : List Char := []
  width : Nat := 0

namespace Layout

variable (l : Layout) (character : Char)

def breakRow : Layout := { rows := l.rows ++ [l.row] }

/-- A newline takes no room. -/
def makeRoom : Layout :=
  if character ≠ '\n' ∧ 0 < l.width ∧ columns < l.width + width character then l.breakRow else l

def push : Layout := { l with row := l.row ++ [character], width := l.width + width character }

def put : Layout := if character = '\n' then l.breakRow else l.push width character

def wrap : Layout := (l.makeRoom width columns character).put width character

def wrapAll (text : List Char) : Layout := text.foldl (wrap width (max columns 1)) l

def allRows : List (List Char) := l.rows ++ [l.row]

end Layout

open Layout

def wrapVisualRows (lines : List (List Char)) : List (List Char) :=
  lines.flatMap fun line => (wrapAll width columns {} line).allRows

/-- The cursor once it is found, and the index of the next byte. -/
structure InputLayout extends Layout where
  cursor : Option (Nat × Nat) := none
  byteIndex : Nat := 0

def InputLayout.wrap (cursorByte : Nat) (l : InputLayout) (character : Char) : InputLayout :=
  let layout := l.makeRoom width columns character
  ⟨layout.put width character,
    if l.byteIndex = cursorByte then some (layout.rows.length, layout.width) else l.cursor,
    l.byteIndex + character.utf8Size⟩

def inputVisualRows (input : InputSnapshot) : List (List Char) × Nat × Nat :=
  let value := ['>', ' '] ++ input.text
  let cursorByte := min (min input.cursorByte (byteLength input.text) + 2) (byteLength value)
  let l := value.foldl (InputLayout.wrap width (max columns 1) cursorByte) {}
  let cursor := if cursorByte = byteLength value then some (l.rows.length, l.width) else l.cursor
  (l.allRows, cursor.getD (l.allRows.length - 1, l.width))

def firstWidth : List Char → Nat
  | [] => 0
  | c :: row => if width c = 0 then firstWidth row else width c

/-- A row without newline, at most as wide as the screen or as its first character. -/
def Fits (row : List Char) : Prop :=
  '\n' ∉ row ∧ displayWidth width row ≤ max columns (firstWidth width row)

/-- The rows hold the text. They are cut at its newlines, and where the next character would have
been too much. -/
inductive Wraps : List (List Char) → List Char → Prop
  | last {row : List Char} (hfits : Fits width columns row) : Wraps [row] row
  | newline {row text : List Char} {rows : List (List Char)} (hfits : Fits width columns row)
      (hrest : Wraps rows text) : Wraps (row :: rows) (row ++ '\n' :: text)
  | wrap {row next text : List Char} {c : Char} {rows : List (List Char)}
      (hfits : Fits width columns row) (hfull : columns < displayWidth width row + width c)
      (hrest : Wraps ((c :: next) :: rows) text) : Wraps (row :: (c :: next) :: rows) (row ++ text)

variable {width columns} {l : Layout} {cursor : Option (Nat × Nat)} {i cursorByte : Nat} {c : Char}
  {row text : List Char} {rows : List (List Char)}

theorem firstWidth_concat : firstWidth width (row ++ [c]) =
    if displayWidth width row = 0 then width c else firstWidth width row := by
  induction row with
  | nil => by_cases hc : width c = 0 <;> simp [firstWidth, displayWidth, hc]
  | cons d row ih =>
    have hcons : displayWidth width (d :: row) = width d + displayWidth width row := by
      simp [displayWidth]
    by_cases hd : width d = 0 <;> simp [firstWidth, hd, ih, hcons]

theorem byteLength_append {text' : List Char} :
    byteLength (text ++ text') = byteLength text + byteLength text' := by
  simp [byteLength]

namespace Layout

structure Filling (width : Char → Nat) (columns : Nat) (l : Layout) : Prop where
  fits : Fits width columns l.row
  width_eq : l.width = displayWidth width l.row

theorem Filling.empty : Filling width columns { rows := rows } := by
  constructor <;> simp [Fits, displayWidth]

theorem Filling.push (h : l.Filling width columns) (hc : c ≠ '\n')
    (hroom : l.width = 0 ∨ l.width + width c ≤ max columns 1) :
    (l.push width c).Filling width columns := by
  obtain ⟨⟨hline, hfits⟩, hwidth⟩ := h
  have hconcat : displayWidth width (l.row ++ [c]) = displayWidth width l.row + width c := by
    simp [displayWidth]
  refine ⟨⟨by simp [Layout.push, hline, hc.symm], ?_⟩, by simp [Layout.push, hconcat, hwidth]⟩
  rw [Layout.push, hconcat, firstWidth_concat]
  split <;> omega

/-- A newline ends the row, a character that is too wide begins the next one. -/
theorem wrap_cases (width : Char → Nat) (columns : Nat) (l : Layout) (c : Char) :
    c = '\n' ∧ l.wrap width columns c = l.breakRow ∨
    c ≠ '\n' ∧ columns < l.width + width c ∧ l.wrap width columns c = l.breakRow.push width c ∨
    c ≠ '\n' ∧ (l.width = 0 ∨ l.width + width c ≤ columns) ∧
      l.wrap width columns c = l.push width c := by
  by_cases hc : c = '\n'
  · simp [wrap, makeRoom, put, hc]
  by_cases hfull : 0 < l.width ∧ columns < l.width + width c
  · simp [wrap, makeRoom, put, hc, hfull]
  · have hroom : l.width = 0 ∨ l.width + width c ≤ columns := by omega
    simp [wrap, makeRoom, put, hc, hfull, hroom]

theorem makeRoom_cases :
    l.makeRoom width columns c = l ∨ l.makeRoom width columns c = l.breakRow := by
  unfold makeRoom
  split <;> simp

theorem makeRoom_wrap :
    (l.makeRoom width columns c).wrap width columns c = l.wrap width columns c := by
  obtain h | h := @makeRoom_cases width columns l c
  · rw [h]
  · rw [wrap, wrap, h]
    simp [makeRoom, breakRow]

theorem Filling.wrap (h : l.Filling width columns) :
    (l.wrap width (max columns 1) c).Filling width columns := by
  obtain ⟨-, hwrap⟩ | ⟨hc, -, hwrap⟩ | ⟨hc, hroom, hwrap⟩ :=
    wrap_cases width (max columns 1) l c <;> rw [hwrap]
  · exact .empty
  · exact Filling.empty.push hc (.inl rfl)
  · exact h.push hc hroom

theorem Filling.foldl (h : l.Filling width columns) (text : List Char) :
    (l.wrapAll width columns text).Filling width columns := by
  induction text generalizing l with
  | nil => exact h
  | cons _ _ ih => exact ih h.wrap

/-- What is still to come continues the row that is being filled. -/
theorem Filling.wraps (h : l.Filling width columns) (text : List Char) :
    ∃ next rows, (l.wrapAll width columns text).allRows = l.rows ++ (l.row ++ next) :: rows ∧
      Wraps width columns ((l.row ++ next) :: rows) (l.row ++ text) := by
  induction text generalizing l with
  | nil => exact ⟨[], [], by simp [allRows, wrapAll], by simpa using .last h.fits⟩
  | cons c _ ih =>
    obtain ⟨next, rows, hrows, hwraps⟩ := ih (h.wrap (c := c))
    rw [wrapAll, List.foldl_cons, ← wrapAll, hrows]
    obtain ⟨rfl, hwrap⟩ | ⟨-, hfull, hwrap⟩ | ⟨-, -, hwrap⟩ :=
      wrap_cases width (max columns 1) l c <;> rw [hwrap] at hwraps ⊢
    · refine ⟨[], next :: rows, by simp [breakRow], ?_⟩
      rw [List.append_nil]
      exact .newline h.fits hwraps
    · refine ⟨[], (c :: next) :: rows, by simp [breakRow, Layout.push], ?_⟩
      rw [List.append_nil]
      rw [h.width_eq] at hfull
      exact .wrap h.fits (by omega) hwraps
    · refine ⟨c :: next, rows, by simp [Layout.push], ?_⟩
      simpa [Layout.push] using hwraps

theorem wraps_allRows (text : List Char) :
    Wraps width columns (wrapAll width columns {} text).allRows text := by
  obtain ⟨_, _, hrows, hwraps⟩ := Filling.wraps (l := {}) .empty text
  rw [hrows]
  exact hwraps

end Layout

/-- Before the cursor is reached, and after it was passed, the loop only wraps. -/
theorem foldl_input (text : List Char) (hpast : cursorByte < i ∨ i + byteLength text ≤ cursorByte) :
    text.foldl (InputLayout.wrap width columns cursorByte) ⟨l, cursor, i⟩ =
      ⟨text.foldl (Layout.wrap width columns) l, cursor, i + byteLength text⟩ := by
  induction text generalizing l i with
  | nil => rfl
  | cons c text ih =>
    have hsize := c.utf8Size_pos
    have hlength : byteLength (c :: text) = c.utf8Size + byteLength text := by simp [byteLength]
    have hne : i ≠ cursorByte := by omega
    rw [List.foldl_cons, List.foldl_cons, InputLayout.wrap, if_neg hne, ih (by dsimp only; omega),
      hlength, ← Nat.add_assoc]
    rfl

/-- Joined again, the rows are the prompt and the text, and the cursor stands where it stood in the
text. -/
theorem wrapped_input_keeps_text_and_cursor (width : Char → Nat) (columns beyond : Nat)
    (before after : List Char) :
    let shown := ['>', ' '] ++ before
    let input : InputSnapshot :=
      ⟨before ++ after, byteLength before + if after = [] then beyond else 0⟩
    let (rows, row, column) := inputVisualRows width columns input
    rows = wrapVisualRows width columns [shown ++ after] ∧
      Wraps width columns rows (shown ++ after) ∧
      ∃ part rest, rows[row]? = some (part ++ rest) ∧ displayWidth width part = column ∧
        (Wraps width columns (rows.take row ++ [part]) shown ∨
          part = [] ∧ Wraps width columns (rows.take row) shown) := by
  intro shown input
  let l := wrapAll width columns {} shown
  have happend : wrapAll width columns {} (shown ++ after) = l.wrapAll width columns after :=
    List.foldl_append
  have hvalue : ['>', ' '] ++ input.text = shown ++ after := (List.append_assoc ..).symm
  have hshown : byteLength shown = 2 + byteLength before := byteLength_append
  have hcursor : min (min input.cursorByte (byteLength input.text) + 2)
      (byteLength (shown ++ after)) = byteLength shown := by
    simp only [input, byteLength_append, hshown]
    split
    · next hnone => simp [hnone, byteLength]; omega
    · omega
  have hbefore := @foldl_input width (max columns 1) {} none 0 (byteLength shown) shown
    (.inr (by omega))
  -- the layout at which the cursor is told
  obtain ⟨start, hstart, hrest, hinput⟩ : ∃ start, (start = l ∨ start = l.breakRow) ∧
      start.wrapAll width columns after = l.wrapAll width columns after ∧
      inputVisualRows width columns input =
        ((start.wrapAll width columns after).allRows, start.rows.length, start.width) := by
    simp only [inputVisualRows, hvalue, hcursor]
    cases after with
    | nil =>
      rw [List.append_nil, if_pos rfl, hbefore]
      exact ⟨l, .inl rfl, rfl, rfl⟩
    | cons c text =>
      refine ⟨l.makeRoom width (max columns 1) c, makeRoom_cases, ?_, ?_⟩
      · simp only [wrapAll, List.foldl_cons, makeRoom_wrap]
      have hsize := c.utf8Size_pos
      have hne : byteLength shown ≠ byteLength (shown ++ c :: text) := by
        simp [byteLength]
        omega
      rw [if_neg hne, List.foldl_append, hbefore, List.foldl_cons, InputLayout.wrap,
        foldl_input _ (.inl (by dsimp only; omega)), if_pos (Nat.zero_add _), wrapAll,
        List.foldl_cons, makeRoom_wrap]
      rfl
  rw [hinput]
  have hfilling : l.Filling width columns := Filling.empty.foldl _
  have hfilled : start.Filling width columns := by
    rcases hstart with rfl | rfl
    · exact hfilling
    · exact .empty
  obtain ⟨next, rows, hrows, -⟩ := hfilled.wraps after
  refine ⟨by simp [wrapVisualRows, happend, hrest], ?_, start.row, next, by simp [hrows],
    hfilled.width_eq.symm, ?_⟩
  · rw [hrest, ← happend]
    exact wraps_allRows _
  · rw [hrows, List.take_left]
    rcases hstart with rfl | rfl
    · exact .inl (wraps_allRows shown)
    · exact .inr ⟨rfl, wraps_allRows shown⟩

end Bridget.Attach
