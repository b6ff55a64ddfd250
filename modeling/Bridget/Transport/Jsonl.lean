import Bridget.Foundation.Lines
import Bridget.Foundation.Text

/-!
# Bounded lines of a socket

A frame is read up to its line feed through a buffer that is filled chunk by chunk. Where the
chunks end makes no difference to what the calls return.
-/

namespace Bridget.Transport

open Foundation List

def lineFeed : UInt8 := 10

inductive LineError where
  | invalidInput | invalidData | unexpectedEof

abbrev LineResult := Except LineError (Option Bytes)

section

variable (maximum : Nat) (stream : Bytes)

/-- The loop of `read_unix_line` over the chunks to come; what it does not consume is left. -/
def readFrame (frame : Bytes) : List Bytes → LineResult × List Bytes
  | [] => (if frame = [] then .ok none else .error .unexpectedEof, [])
  | bytes :: chunks =>
    match firstLine lineFeed bytes with
    | some (line, rest) =>
      if maximum - frame.length < line.length + 1 then (.error .invalidData, bytes :: chunks)
      else
        (.ok (some (frame ++ line ++ [lineFeed])), if rest = [] then chunks else rest :: chunks)
    | none =>
      if maximum - frame.length < bytes.length then (.error .invalidData, bytes :: chunks)
      else if (frame ++ bytes).length = maximum then (.error .invalidData, chunks)
      else readFrame (frame ++ bytes) chunks

def readUnixLine (chunks : List Bytes) : LineResult × List Bytes :=
  if maximum = 0 then (.error .invalidInput, chunks) else readFrame maximum [] chunks

def readUnixLines : Nat → List Bytes → List LineResult × List Bytes
  | 0, chunks => ([], chunks)
  | n + 1, chunks =>
    let call := readUnixLine maximum chunks
    let calls := readUnixLines n call.2
    (call.1 :: calls.1, calls.2)

/-- The stream cut after each line feed. -/
def frames : List Bytes := (completeLines lineFeed stream).map (· ++ [lineFeed])

def fitting : List Bytes := (frames stream).takeWhile (·.length ≤ maximum)

def ending : LineResult :=
  if (fitting maximum stream).length < (frames stream).length then .error .invalidData
  else if unfinished lineFeed stream = [] then .ok none
  else if (unfinished lineFeed stream).length < maximum then .error .unexpectedEof
  else .error .invalidData

/-- The calls return the frames of the stream one by one and leave what follows. -/
structure Reads (chunks : List Bytes) : Prop where
  calls : ∀ n ≤ (fitting maximum stream).length, ∃ left,
    readUnixLines maximum n chunks = (((fitting maximum stream).take n).map (.ok ∘ some), left) ∧
      ((fitting maximum stream).take n).flatten ++ left.flatten = stream
  last : (readUnixLine maximum
    (readUnixLines maximum (fitting maximum stream).length chunks).2).1 = ending maximum stream

/-- What one call returns, from the stream alone. -/
def nextFrame : LineResult :=
  match firstLine lineFeed stream with
  | some (line, _) =>
    if line.length < maximum then .ok (some (line ++ [lineFeed])) else .error .invalidData
  | none =>
    if stream = [] then .ok none
    else if stream.length < maximum then .error .unexpectedEof
    else .error .invalidData

end

variable {maximum : Nat} {chunks : List Bytes} {line frame xs ys : Bytes}

theorem nextFrame_line (hline : lineFeed ∉ line) : nextFrame maximum (line ++ lineFeed :: xs) =
    if line.length < maximum then .ok (some (line ++ [lineFeed])) else .error .invalidData := by
  rw [nextFrame, firstLine_line hline]

theorem nextFrame_of_long (hxs : lineFeed ∉ xs) (hpos : 0 < maximum) (hlong : maximum ≤ xs.length) :
    nextFrame maximum (xs ++ ys) = .error .invalidData := by
  cases hys : firstLine lineFeed ys with
  | some found =>
    obtain ⟨hline, rfl⟩ := firstLine_eq_some hys
    have hboth : lineFeed ∉ xs ++ found.1 := by simp [hxs, hline]
    rw [← append_assoc, nextFrame_line hboth, length_append, if_neg (by omega)]
  | none =>
    have hboth : lineFeed ∉ xs ++ ys := by simp [hxs, not_mem_of_firstLine_eq_none hys]
    have hlength : maximum ≤ (xs ++ ys).length := by
      rw [length_append]
      omega
    have hne : xs ++ ys ≠ [] := ne_nil_of_length_pos (hpos.trans_le hlength)
    rw [nextFrame, firstLine_of_not_mem hboth]
    simp only [hne, hlength.not_gt, if_false]

/-- A frame that was begun goes on as the stream does. -/
theorem readFrame_spec (hframe : lineFeed ∉ frame) (hlength : frame.length < maximum)
    (hchunks : [] ∉ chunks) :
    (readFrame maximum frame chunks).1 = nextFrame maximum (frame ++ chunks.flatten) ∧
      ∀ line, (readFrame maximum frame chunks).1 = .ok (some line) →
        line ++ (readFrame maximum frame chunks).2.flatten = frame ++ chunks.flatten ∧
          [] ∉ (readFrame maximum frame chunks).2 := by
  induction chunks generalizing frame with
  | nil =>
    rw [flatten_nil, append_nil]
    simp only [readFrame, nextFrame, firstLine_of_not_mem hframe, hlength, if_true, true_and]
    intro line hline
    split at hline <;> cases hline
  | cons bytes chunks ih =>
    have hrest : [] ∉ chunks := not_mem_of_not_mem_cons hchunks
    rw [readFrame, flatten_cons]
    cases hcut : firstLine lineFeed bytes with
    | some found =>
      obtain ⟨line, rest⟩ := found
      obtain ⟨hline, rfl⟩ := firstLine_eq_some hcut
      have hboth : lineFeed ∉ frame ++ line := by simp [hframe, hline]
      have hstream : frame ++ (line ++ lineFeed :: rest ++ chunks.flatten) =
          frame ++ line ++ lineFeed :: (rest ++ chunks.flatten) := by simp
      have hroom : maximum - frame.length < line.length + 1 ↔
          ¬ (frame ++ line).length < maximum := by
        rw [length_append]
        omega
      rw [hstream, nextFrame_line hboth]
      by_cases hshort : (frame ++ line).length < maximum
      · simp only [hroom, hshort, not_true_eq_false, if_false, if_true, true_and]
        rintro _ ⟨⟩
        split
        next hnil => simp [hnil, hrest]
        next hne => simp [hrest, Ne.symm hne]
      · simp only [hroom, hshort, not_false_eq_true, if_false, if_true, true_and]
        rintro _ ⟨⟩
    | none =>
      have hboth : lineFeed ∉ frame ++ bytes := by simp [hframe, not_mem_of_firstLine_eq_none hcut]
      dsimp only
      rw [← append_assoc]
      split
      next hlong =>
        rw [nextFrame_of_long hboth (by omega) (by rw [length_append]; omega)]
        exact ⟨rfl, by rintro _ ⟨⟩⟩
      split
      next hfull =>
        rw [nextFrame_of_long hboth (by omega) hfull.ge]
        exact ⟨rfl, by rintro _ ⟨⟩⟩
      next hroom =>
        rw [length_append] at hroom
        exact ih hboth (by rw [length_append]; omega) hrest

theorem readUnixLine_spec (hpos : 0 < maximum) (hchunks : [] ∉ chunks) :
    (readUnixLine maximum chunks).1 = nextFrame maximum chunks.flatten ∧
      ∀ line, (readUnixLine maximum chunks).1 = .ok (some line) →
        line ++ (readUnixLine maximum chunks).2.flatten = chunks.flatten ∧
          [] ∉ (readUnixLine maximum chunks).2 := by
  rw [readUnixLine, if_neg hpos.ne']
  exact readFrame_spec not_mem_nil hpos hchunks

theorem Reads.of_none_fits (hfits : fitting maximum chunks.flatten = [])
    (hcall : (readUnixLine maximum chunks).1 = ending maximum chunks.flatten) :
    Reads maximum chunks.flatten chunks := by
  refine ⟨fun n hn => ⟨chunks, ?_⟩, ?_⟩
  · rw [hfits] at hn ⊢
    rw [Nat.le_zero.mp hn]
    exact ⟨rfl, rfl⟩
  · rwa [hfits]

theorem reads (hpos : 0 < maximum) {stream : Bytes} (hstream : chunks.flatten = stream)
    (hchunks : [] ∉ chunks) : Reads maximum stream chunks := by
  induction stream using lineInduction lineFeed generalizing chunks with
  | rest _ hline =>
    subst hstream
    have hnone : frames chunks.flatten = [] := by
      rw [frames, completeLines_of_not_mem hline, map_nil]
    refine .of_none_fits (by rw [fitting, hnone, takeWhile_nil]) ?_
    rw [(readUnixLine_spec hpos hchunks).1, nextFrame, firstLine_of_not_mem hline, ending, fitting,
      hnone, unfinished_of_not_mem hline]
    rfl
  | line line stream hline ih =>
    have hframes : frames (line ++ lineFeed :: stream) = (line ++ [lineFeed]) :: frames stream := by
      rw [frames, completeLines_line hline, map_cons, frames]
    obtain ⟨hcall, hleft⟩ := readUnixLine_spec hpos hchunks
    rw [hstream, nextFrame_line hline] at hcall
    by_cases hshort : line.length < maximum
    · rw [if_pos hshort] at hcall
      have hfits : fitting maximum (line ++ lineFeed :: stream) =
          (line ++ [lineFeed]) :: fitting maximum stream := by
        rw [fitting, hframes, takeWhile_cons_of_pos (by simpa using hshort), fitting]
      obtain ⟨hrest, hnonempty⟩ := hleft _ hcall
      rw [hstream, append_assoc, singleton_append, append_cancel_left_eq, cons.injEq] at hrest
      obtain ⟨hcalls, hlast⟩ := ih hrest.2 hnonempty
      refine ⟨fun n hn => ?_, ?_⟩
      · cases n with
        | zero => exact ⟨chunks, rfl, hstream⟩
        | succ n =>
          rw [hfits] at hn ⊢
          obtain ⟨left, hread, hflat⟩ := hcalls n (Nat.le_of_succ_le_succ hn)
          refine ⟨left, by simp [readUnixLines, hcall, hread], ?_⟩
          rw [take_succ_cons, flatten_cons, append_assoc, hflat, append_assoc, singleton_append]
      · rw [ending, hfits, hframes, unfinished_line hline]
        simpa [readUnixLines, ending] using hlast
    · have hnone : fitting maximum (line ++ lineFeed :: stream) = [] := by
        rw [fitting, hframes, takeWhile_cons_of_neg (by simpa using hshort)]
      rw [← hstream]
      rw [← hstream] at hnone hframes
      refine .of_none_fits hnone ?_
      rw [hcall, if_neg hshort, ending, hnone, hframes]
      rfl

/-- However the stream comes in chunks, the calls return its frames one by one up to the first
that is too long, and leave what follows them. A stream that ends within a frame is told so while
that frame is shorter than the maximum. -/
theorem chunks_do_not_matter :
    (∀ chunks, readUnixLine 0 chunks = (.error .invalidInput, chunks)) ∧
      ∀ maximum chunks, 0 < maximum → [] ∉ chunks → Reads maximum chunks.flatten chunks :=
  ⟨fun _ => rfl, fun _ _ hpos hchunks => reads hpos rfl hchunks⟩

/-- Two frames in three chunks, none of which ends where a frame does but the last. -/
theorem frames_across_chunks :
    let chunks : List Bytes := [[97], [10, 98], [99, 10]]
    readUnixLines 3 2 chunks = ([.ok (some [97, 10]), .ok (some [98, 99, 10])], []) ∧
      Reads 3 chunks.flatten chunks := by
  refine ⟨?_, chunks_do_not_matter.2 3 _ (by decide) (by decide)⟩
  simp [readUnixLines, readUnixLine, readFrame, firstLine, lineFeed]

/-- Two bytes without a line feed are refused as they come, before the stream ends. -/
theorem full_frame_is_not_an_early_end : readUnixLine 2 [[97, 98]] = (.error .invalidData, []) := by
  simp [readUnixLine, readFrame, firstLine, lineFeed]

end Bridget.Transport
