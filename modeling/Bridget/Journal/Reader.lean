import Bridget.Journal.Sequence

/-!
# The incremental reader of a journal file

A file that grows is read in slices. A line is handed on when its newline arrives; what does
not fit the limit is reported once and skipped up to its newline. However the slices fall,
the items are those of the lines read so far.
-/

namespace Bridget.Journal

open Foundation List

def maxIncrementalLineBytes : Nat := 4 * 1024 * 1024

inductive JournalReadItem where
  | event (seq offset line : Nat) (bytes : Bytes)
  | unreadable (line offset : Nat)
  | oversized (seq : Option Nat) (offset line : Nat)
  deriving DecidableEq

/-- What follows the first occurrence of a marker. -/
def afterMarker (marker : Bytes) : Bytes → Option Bytes
  | [] => none
  | byte :: rest =>
    if marker.isPrefixOf (byte :: rest) then some ((byte :: rest).drop marker.length)
    else afterMarker marker rest

/-- `str::parse::<u64>` on ASCII digits. -/
def parseU64 (digits : Bytes) : Option Nat :=
  if digits = [] then none
  else asU64 (some (digits.foldl (fun value digit => 10 * value + (digit.toNat - 0x30)) 0))

def sequencePrefix (bytes : Bytes) : Option Nat := do
  let rest ← afterMarker (utf8 "\"seq\":") (bytes.take 1024)
  parseU64 (rest.takeWhile isAsciiDigit)

structure IncrementalJournalReader where
  (nextOffset nextLine pendingOffset : Nat)
  pending : Bytes
  discarding : Option (Nat × Nat × Option Nat)
  deriving DecidableEq

def IncrementalJournalReader.new : IncrementalJournalReader := ⟨0, 1, 0, [], none⟩

section

variable {Value : Type} (codec : JournalCodec Value)

def readLine (line : Bytes) (offset number : Nat) : JournalReadItem :=
  match codec.header line with
  | some value =>
    if asU64 value.v = some 1 then
      match asU64 value.seq with
      | some seq => .event seq offset number line
      | none => .unreadable number offset
    else .unreadable number offset
  | none => .unreadable number offset

namespace IncrementalJournalReader

def takeLine (reader : IncrementalJournalReader) (line rest : Bytes) :
    JournalReadItem × IncrementalJournalReader :=
  (if maxIncrementalLineBytes < line.length then
      .oversized (sequencePrefix reader.pending) reader.pendingOffset reader.nextLine
    else readLine codec line reader.pendingOffset reader.nextLine,
    { reader with
      pending := rest
      pendingOffset := reader.pendingOffset + (line.length + 1)
      nextLine := reader.nextLine + 1 })

def readLines (reader : IncrementalJournalReader) :
    List JournalReadItem × IncrementalJournalReader :=
  match hcut : firstLine newline reader.pending with
  | some (line, rest) =>
    let others := (reader.takeLine codec line rest).2.readLines
    ((reader.takeLine codec line rest).1 :: others.1, others.2)
  | none =>
    if maxIncrementalLineBytes < reader.pending.length then
      let seq := sequencePrefix reader.pending
      ([.oversized seq reader.pendingOffset reader.nextLine],
        { reader with
          pending := []
          discarding := some (reader.pendingOffset, reader.nextLine, seq) })
    else ([], reader)
  termination_by reader.pending.length
  decreasing_by
    rw [(firstLine_eq_some hcut).2]
    simp only [takeLine, length_append, length_cons]
    omega

/-- `read_chunk`, where the system call returns `count` bytes of what the file holds. -/
def readChunk (reader : IncrementalJournalReader) (contents : Bytes) (count : Nat) :
    List JournalReadItem × IncrementalJournalReader :=
  let chunk := (contents.drop reader.nextOffset).take count
  let start := reader.nextOffset
  let reader := { reader with nextOffset := start + chunk.length }
  match reader.discarding with
  | some _ =>
    match firstLine newline chunk with
    | some (line, rest) =>
      { reader with
        pendingOffset := start + (line.length + 1)
        nextLine := reader.nextLine + 1
        discarding := none
        pending := reader.pending ++ rest }.readLines codec
    | none => ([], reader)
  | none => { reader with pending := reader.pending ++ chunk }.readLines codec

end IncrementalJournalReader

/-! ## Parsing in one go -/

def lineItem (line : Bytes) (offset number : Nat) : JournalReadItem :=
  if maxIncrementalLineBytes < line.length then .oversized (sequencePrefix line) offset number
  else readLine codec line offset number

/-- The items of lines that follow each other, from an offset and a line number on. -/
def lineItems : Nat → Nat → List Bytes → List JournalReadItem
  | _, _, [] => []
  | offset, number, line :: rest =>
    lineItem codec line offset number :: lineItems (offset + (line.length + 1)) (number + 1) rest

/-- What the unfinished line gives: nothing, unless it is too long already. -/
def tailItems (tail : Bytes) (offset number : Nat) : List JournalReadItem :=
  if maxIncrementalLineBytes < tail.length then [.oversized (sequencePrefix tail) offset number]
  else []

def parseAll (text : Bytes) : List JournalReadItem :=
  lineItems codec 0 1 (completeLines newline text) ++
    tailItems (unfinished newline text) (text.length - (unfinished newline text).length)
      ((completeLines newline text).length + 1)

end

/-! ## The slices make up the text -/

variable {Value : Type} {codec : JournalCodec Value} {line : Bytes}

theorem lineItems_append (offset number : Nat) (lines others : List Bytes) :
    lineItems codec offset number (lines ++ others) = lineItems codec offset number lines ++
        lineItems codec (offset + linesLength lines) (number + lines.length) others := by
  induction lines generalizing offset number with
  | nil => simp [lineItems, linesLength]
  | cons _ _ ih =>
    rw [cons_append, lineItems, lineItems, ih, linesLength_cons, length_cons, cons_append]
    congr 3 <;> omega

theorem sequencePrefix_append (h : maxIncrementalLineBytes < line.length)
    (rest : Bytes) : sequencePrefix (line ++ rest) = sequencePrefix line := by
  have hlong : 1024 ≤ line.length := by
    unfold maxIncrementalLineBytes at h
    omega
  unfold sequencePrefix
  rw [take_append_of_le_length hlong]

theorem parseAll_eq (text : Bytes) :
    parseAll codec text = lineItems codec 0 1 (completeLines newline text) ++
        tailItems (unfinished newline text) (linesLength (completeLines newline text))
          ((completeLines newline text).length + 1) := by
  have hoffset : text.length - (unfinished newline text).length =
      linesLength (completeLines newline text) := by
    have hlength := linesLength_add_unfinished newline text
    omega
  rw [parseAll, hoffset]

namespace IncrementalJournalReader

variable {reader : IncrementalJournalReader} {rest text : Bytes}

/-- What the loop leaves of a buffer: the unfinished line, or nothing when it is too long. -/
def leftWith (reader : IncrementalJournalReader) (tail : Bytes) (offset number : Nat) :
    IncrementalJournalReader :=
  if maxIncrementalLineBytes < tail.length then
    { reader with
      pending := []
      pendingOffset := offset
      nextLine := number
      discarding := some (offset, number, sequencePrefix tail) }
  else { reader with pending := tail, pendingOffset := offset, nextLine := number }

theorem readLines_eq (pending : Bytes) (reader : IncrementalJournalReader) :
    { reader with pending }.readLines codec =
      (lineItems codec reader.pendingOffset reader.nextLine (completeLines newline pending) ++
          tailItems (unfinished newline pending)
            (reader.pendingOffset + linesLength (completeLines newline pending))
            (reader.nextLine + (completeLines newline pending).length),
        reader.leftWith (unfinished newline pending)
          (reader.pendingOffset + linesLength (completeLines newline pending))
          (reader.nextLine + (completeLines newline pending).length)) := by
  induction pending using lineInduction newline generalizing reader with
  | rest _ hpending =>
    rw [readLines, completeLines_of_not_mem hpending, unfinished_of_not_mem hpending]
    split
    next hcut => cases (firstLine_of_not_mem hpending).symm.trans hcut
    · unfold tailItems leftWith
      split <;> rfl
  | line line rest hline ih =>
    rw [readLines, completeLines_line hline, unfinished_line hline]
    split
    swap
    next hnone => cases (firstLine_line hline).symm.trans hnone
    rename_i hcut
    cases (firstLine_line hline).symm.trans hcut
    have hitem : ({ reader with pending := line ++ newline :: rest }.takeLine codec line rest).1 =
        lineItem codec line reader.pendingOffset reader.nextLine := by
      unfold takeLine lineItem
      split
      next hlong => rw [sequencePrefix_append hlong]
      · rfl
    have hoffset : reader.pendingOffset + (line.length + 1) +
        linesLength (completeLines newline rest) =
          reader.pendingOffset + linesLength (line :: completeLines newline rest) := by
      rw [linesLength_cons]
      omega
    have hnumber : reader.nextLine + 1 + (completeLines newline rest).length =
        reader.nextLine + (line :: completeLines newline rest).length := by
      rw [length_cons]
      omega
    have hrest := ih { reader with
      pendingOffset := reader.pendingOffset + (line.length + 1)
      nextLine := reader.nextLine + 1 }
    simp only [hoffset, hnumber] at hrest
    simp only [hitem]
    simp only [takeLine, hrest]
    rfl

/-! ## Reading a file while it grows -/

/-- The reader has taken in the text so far. -/
structure HasRead (reader : IncrementalJournalReader) (text : Bytes) : Prop where
  offset : reader.nextOffset = text.length
  number : reader.nextLine = (completeLines newline text).length + 1
  buffered : reader.discarding = none → reader.pending = unfinished newline text ∧
      reader.pendingOffset = linesLength (completeLines newline text)
  short : reader.discarding = none → (unfinished newline text).length ≤ maxIncrementalLineBytes
  skipping : reader.discarding ≠ none →
    reader.pending = [] ∧ maxIncrementalLineBytes < (unfinished newline text).length

theorem hasRead_new : new.HasRead [] where
  offset := rfl
  number := by rw [completeLines_of_not_mem not_mem_nil]; rfl
  buffered := by
    intro _
    exact ⟨rfl, rfl⟩
  short := by
    intro _
    exact Nat.zero_le _
  skipping := fun h => absurd rfl h

theorem hasRead_leftWith (hoffset : reader.nextOffset = text.length)
    (hdiscarding : reader.discarding = none) :
    (reader.leftWith (unfinished newline text) (linesLength (completeLines newline text))
      ((completeLines newline text).length + 1)).HasRead text := by
  unfold leftWith
  split
  next hlong =>
    exact ⟨hoffset, rfl, fun h => (nomatch h), fun h => (nomatch h), fun _ => ⟨rfl, hlong⟩⟩
  next hshort =>
    exact ⟨hoffset, rfl, fun _ => ⟨rfl, rfl⟩, fun _ => Nat.le_of_not_lt hshort,
      fun h => absurd hdiscarding h⟩

/-- The loop continues a text whose unfinished line is in the buffer. -/
theorem readLines_continues {more : Bytes} (hdiscarding : reader.discarding = none)
    (hoffset : reader.nextOffset = (text ++ more).length)
    (hnumber : reader.nextLine = (completeLines newline text).length + 1)
    (hstart : reader.pendingOffset = linesLength (completeLines newline text))
    (hpending : reader.pending = unfinished newline text ++ more) :
    parseAll codec (text ++ more) =
        lineItems codec 0 1 (completeLines newline text) ++ (reader.readLines codec).1 ∧
      (reader.readLines codec).2.HasRead (text ++ more) := by
  have hlines : completeLines newline (text ++ more) =
      completeLines newline text ++ completeLines newline reader.pending := by
    rw [hpending, completeLines_append]
  have htail : unfinished newline (text ++ more) = unfinished newline reader.pending := by
    rw [hpending, unfinished_append]
  have hroom : linesLength (completeLines newline (text ++ more)) =
      reader.pendingOffset + linesLength (completeLines newline reader.pending) := by
    rw [hlines, hstart]
    simp [linesLength]
  have hcount : (completeLines newline (text ++ more)).length + 1 =
      reader.nextLine + (completeLines newline reader.pending).length := by
    rw [hlines, length_append, hnumber]
    omega
  have hread : reader.readLines codec = _ := readLines_eq reader.pending reader
  have hleft := hasRead_leftWith hoffset hdiscarding
  rw [hroom, hcount, htail] at hleft
  constructor
  · rw [parseAll_eq, hroom, hcount, htail, hlines, lineItems_append, hread, append_assoc,
      hstart, hnumber, Nat.zero_add, Nat.add_comm 1]
  · rw [hread]
    exact hleft

/-- One slice adds the items of the bytes that it brings. -/
theorem HasRead.readChunk (hread : reader.HasRead text) (codec : JournalCodec Value)
    (contents : Bytes) (count : Nat) : let chunk := (contents.drop reader.nextOffset).take count
    parseAll codec (text ++ chunk) =
        parseAll codec text ++ (reader.readChunk codec contents count).1 ∧
      (reader.readChunk codec contents count).2.HasRead (text ++ chunk) := by
  intro chunk
  have hoffset : reader.nextOffset + chunk.length = (text ++ chunk).length := by
    rw [length_append, hread.offset]
  by_cases hdiscarding : reader.discarding = none
  · obtain ⟨hpending, hstart⟩ := hread.buffered hdiscarding
    have hquiet : tailItems (unfinished newline text) (linesLength (completeLines newline text))
        ((completeLines newline text).length + 1) = [] :=
      if_neg (Nat.not_lt.mpr (hread.short hdiscarding))
    simp only [IncrementalJournalReader.readChunk, hdiscarding]
    rw [parseAll_eq text, hquiet, append_nil]
    apply readLines_continues
    · rfl
    · exact hoffset
    · exact hread.number
    · exact hstart
    · rw [hpending]
  obtain ⟨hpending, hlong⟩ := hread.skipping hdiscarding
  cases hcut : firstLine newline chunk with
  | none =>
    have hchunk := not_mem_of_firstLine_eq_none hcut
    have htail : newline ∉ unfinished newline text ++ chunk := by
      rw [mem_append]
      exact not_or.mpr ⟨not_mem_unfinished text, hchunk⟩
    have hlines : completeLines newline (text ++ chunk) = completeLines newline text := by
      rw [completeLines_append, completeLines_of_not_mem htail, append_nil]
    have hrest : unfinished newline (text ++ chunk) = unfinished newline text ++ chunk := by
      rw [unfinished_append, unfinished_of_not_mem htail]
    obtain ⟨_, hskipped⟩ := Option.ne_none_iff_exists'.mp hdiscarding
    change firstLine newline ((contents.drop reader.nextOffset).take count) = _ at hcut
    simp only [IncrementalJournalReader.readChunk, hskipped, hcut]
    constructor
    · rw [parseAll_eq, parseAll_eq, hlines, hrest, tailItems, tailItems, if_pos hlong,
        if_pos (hlong.trans_le (by simp)), sequencePrefix_append hlong, append_nil]
    refine ⟨hoffset, ?_, by rintro ⟨⟩, by rintro ⟨⟩, ?_⟩
    · rw [hlines]
      exact hread.number
    · intro _
      rw [hrest]
      exact ⟨hpending, hlong.trans_le (by simp)⟩
  | some cut =>
    obtain ⟨line, rest⟩ := cut
    obtain ⟨hline, hchunk⟩ := firstLine_eq_some hcut
    -- The line that was reported already ends here; the loop goes on behind its newline.
    have htext : text ++ chunk = (text ++ line) ++ [newline] ++ rest := by
      rw [hchunk]
      simp
    have hended : completeLines newline ((text ++ line) ++ [newline]) =
        completeLines newline text ++ [unfinished newline text ++ line] := by
      have htail : newline ∉ unfinished newline text ++ line := by
        rw [mem_append]
        exact not_or.mpr ⟨not_mem_unfinished text, hline⟩
      rw [completeLines_concat, completeLines_append, completeLines_of_not_mem htail,
        unfinished_append, unfinished_of_not_mem htail, append_nil]
    have hreported : lineItems codec 0 1 (completeLines newline ((text ++ line) ++ [newline])) =
        parseAll codec text := by
      rw [hended, lineItems_append, parseAll_eq, lineItems, lineItems, lineItem, tailItems,
        if_pos hlong, if_pos (hlong.trans_le (by simp)), sequencePrefix_append hlong, Nat.zero_add,
        Nat.add_comm 1]
    have hlength := linesLength_add_unfinished newline ((text ++ line) ++ [newline])
    rw [unfinished_concat] at hlength
    obtain ⟨_, hskipped⟩ := Option.ne_none_iff_exists'.mp hdiscarding
    change firstLine newline ((contents.drop reader.nextOffset).take count) = _ at hcut
    simp only [IncrementalJournalReader.readChunk, hskipped, hcut]
    rw [← hreported, htext]
    apply readLines_continues rfl
    · rw [← htext]
      exact hoffset
    · rw [hended, hread.number, length_append]
      rfl
    · dsimp only
      rw [hread.offset]
      simp only [length_append, length_cons, length_nil] at hlength
      omega
    · rw [hpending, unfinished_concat]

end IncrementalJournalReader

/-- A file that others append to, and what a reader has made of it. -/
structure JournalReading where
  file : Option Bytes
  reader : IncrementalJournalReader
  consumed : Bytes
  items : List JournalReadItem

inductive ReadingLabel where
  | grow (bytes : Bytes)
  | readChunk (maxBytes count : Nat)

namespace JournalReading

def start : JournalReading := ⟨none, .new, [], []⟩

/-- One step; a file that does not exist yet gives nothing. -/
def step (codec : JournalCodec Value) (s : JournalReading) : ReadingLabel → JournalReading
  | .grow bytes => { s with file := some (s.file.getD [] ++ bytes) }
  | .readChunk _ count =>
    match s.file with
    | none => s
    | some contents =>
      { s with
        reader := (s.reader.readChunk codec contents count).2
        consumed := s.consumed ++ (contents.drop s.reader.nextOffset).take count
        items := s.items ++ (s.reader.readChunk codec contents count).1 }

/-- A read asks for at least one byte and is given at least one of those that are there. -/
def Admits (_ : JournalReading) : ReadingLabel → Prop
  | .grow _ => True
  | .readChunk maxBytes count => 1 ≤ count ∧ count ≤ maxBytes

instance (s : JournalReading) (label : ReadingLabel) : Decidable (s.Admits label) :=
  match label with
  | .grow _ => .isTrue trivial
  | .readChunk maxBytes count => inferInstanceAs (Decidable (1 ≤ count ∧ count ≤ maxBytes))

/-- What has been read of the file, and what it gave. -/
structure InStep (codec : JournalCodec Value) (s : JournalReading) : Prop where
  read : s.reader.HasRead s.consumed
  items : s.items = parseAll codec s.consumed
  beginning : s.consumed <+: s.file.getD []

theorem inStep_step {s : JournalReading} (h : s.InStep codec) (label : ReadingLabel) :
    (s.step codec label).InStep codec := by
  cases label with
  | grow => exact ⟨h.read, h.items, h.beginning.trans (prefix_append _ _)⟩
  | readChunk _ count =>
    cases hfile : s.file with
    | none => simpa only [step, hfile] using h
    | some contents =>
      obtain ⟨hitems, hread⟩ := h.read.readChunk codec contents count
      have hbeginning : s.consumed <+: contents := by
        simpa only [hfile, Option.getD_some] using h.beginning
      simp only [step, hfile]
      refine ⟨hread, ?_, ?_⟩
      · rw [hitems, h.items]
      · obtain ⟨_, rfl⟩ := hbeginning
        rw [h.read.offset, drop_left]
        exact (prefix_append_right_inj _).mpr (List.take_prefix _ _)

/-- However a file grows and however its reads are cut, the reader has handed on the items of
the text that it has consumed, and it keeps no more than a line within the limit. -/
theorem incremental_reading_is_parsing {labels : List ReadingLabel} {s : JournalReading}
    (hrun : Run (step codec) Admits start labels s) :
    s.items = parseAll codec s.consumed ∧
      s.consumed = (s.file.getD []).take s.reader.nextOffset ∧
      s.reader.pending.length ≤ maxIncrementalLineBytes := by
  have h : s.InStep codec := by
    apply hrun.invariant
    · exact fun _ label h _ => inStep_step h label
    · exact ⟨IncrementalJournalReader.hasRead_new, rfl, nil_prefix⟩
  refine ⟨h.items, ?_, ?_⟩
  · obtain ⟨_, hrest⟩ := h.beginning
    rw [h.read.offset, ← hrest, take_left]
  by_cases hdiscarding : s.reader.discarding = none
  · rw [(h.read.buffered hdiscarding).1]
    exact h.read.short hdiscarding
  · rw [(h.read.skipping hdiscarding).1]
    exact Nat.zero_le _

/-- A note that arrives in two parts, read in slices that cut it elsewhere. -/
theorem note_read_in_slices :
    let note := noteHead ++ decimal 7 ++ paddingTail 0
    ∃ s, Run (step noteCodec) Admits start
        [.readChunk 16 16, .grow (note.take 20), .readChunk 16 5, .readChunk 64 64,
          .grow (note.drop 20 ++ [newline] ++ decimal 3), .readChunk 8 8, .readChunk 256 256] s ∧
      s.items = [.event 7 0 1 note] ∧ s.items = parseAll noteCodec s.consumed := by
  intro note
  obtain ⟨s, hrun⟩ : ∃ s, Run (step noteCodec) Admits start
      [.readChunk 16 16, .grow (note.take 20), .readChunk 16 5, .readChunk 64 64,
        .grow (note.drop 20 ++ [newline] ++ decimal 3), .readChunk 8 8, .readChunk 256 256] s := by
    refine ⟨_, .cons ?_ (.cons ?_ (.cons ?_ (.cons ?_ (.cons ?_ (.cons ?_ (.cons ?_
      (.nil _)))))))⟩ <;> decide
  refine ⟨s, hrun, ?_, (incremental_reading_is_parsing hrun).1⟩
  rw [hrun.eq_foldl]
  decide +kernel

end JournalReading

end Bridget.Journal
