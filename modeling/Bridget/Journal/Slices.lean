import Bridget.Journal.Reader

/-!
# Slices of a file

What a reader has left of a file, and the numbers and events that lines bring. A line that is
too long shows its number but brings no event.
-/

namespace Bridget.Journal

open Foundation List

/-- What is assumed of the JSON library beyond `Faithful`: the number of an entry stands at its
beginning, where it is looked for when the line is too long, and nothing is read from nothing. -/
structure JournalCodec.Shows {Value : Type} (codec : JournalCodec Value) : Prop where
  number : ∀ entry, entry.seq ≤ u64Max → sequencePrefix (codec.toVec entry) = some entry.seq
  empty : codec.header [] = none

def JournalReadItem.number : JournalReadItem → Option Nat
  | .event seq _ _ _ => some seq
  | .oversized seq _ _ => seq
  | .unreadable _ _ => none

def JournalReadItem.delivered : JournalReadItem → Option (Nat × Bytes)
  | .event seq _ _ bytes => some (seq, bytes)
  | .oversized _ _ _ | .unreadable _ _ => none

variable (items : List JournalReadItem)

def itemNumbers : List Nat := items.filterMap JournalReadItem.number

def itemEvents : List (Nat × Bytes) := items.filterMap JournalReadItem.delivered

variable (item : JournalReadItem) (rest : List JournalReadItem)

theorem itemNumbers_cons : itemNumbers (item :: rest) = item.number.toList ++ itemNumbers rest := by
  unfold itemNumbers
  cases hnumber : item.number <;> simp [hnumber]

theorem itemEvents_cons : itemEvents (item :: rest) = item.delivered.toList ++ itemEvents rest := by
  unfold itemEvents
  cases hdelivered : item.delivered <;> simp [hdelivered]

theorem itemNumbers_append (items others : List JournalReadItem) :
    itemNumbers (items ++ others) = itemNumbers items ++ itemNumbers others :=
  filterMap_append

theorem itemEvents_append (items others : List JournalReadItem) :
    itemEvents (items ++ others) = itemEvents items ++ itemEvents others :=
  filterMap_append

theorem itemEvents_sublist (items : List JournalReadItem) :
    ((itemEvents items).map Prod.fst).Sublist (itemNumbers items) := by
  induction items with
  | nil => exact Sublist.refl _
  | cons item _ ih =>
    rw [itemEvents_cons, itemNumbers_cons, map_append]
    refine Sublist.append ?_ ih
    cases item with
    | event | unreadable => exact Sublist.refl _
    | oversized => exact nil_sublist _

variable {Value : Type} {codec : JournalCodec Value}

/-- The reader has read the contents up to its offset. -/
def IncrementalJournalReader.Reads (reader : IncrementalJournalReader) (contents : Bytes) : Prop :=
  reader.HasRead (contents.take reader.nextOffset)

/-- The items of a file that follow those of its first bytes. -/
def restItems (codec : JournalCodec Value) (contents : Bytes) (offset : Nat) :
    List JournalReadItem :=
  (parseAll codec contents).drop (parseAll codec (contents.take offset)).length

theorem parseAll_take (contents : Bytes) (offset : Nat) :
    parseAll codec contents =
      parseAll codec (contents.take offset) ++ restItems codec contents offset := by
  -- a reader that has taken in the beginning goes on with the rest
  have hread := (IncrementalJournalReader.hasRead_new.readChunk codec (contents.take offset)
    (contents.take offset).length).2
  rw [IncrementalJournalReader.new, nil_append, drop_zero, take_length] at hread
  have hitems := (hread.readChunk codec (contents.take offset ++ contents.drop offset)
    (contents.drop offset).length).1
  rw [hread.offset, drop_left, take_length, take_append_drop] at hitems
  rw [restItems, hitems, drop_left]

@[simp] theorem restItems_zero (contents : Bytes) :
    restItems codec contents 0 = parseAll codec contents := by
  rw [restItems, take_zero]
  rfl

@[simp] theorem restItems_length (contents : Bytes) :
    restItems codec contents contents.length = [] := by
  rw [restItems, take_length, drop_length]

namespace IncrementalJournalReader

variable {reader : IncrementalJournalReader} {contents : Bytes}

theorem reads_new (contents : Bytes) : new.Reads contents := hasRead_new

theorem Reads.le (h : reader.Reads contents) : reader.nextOffset ≤ contents.length := by
  have hoffset := HasRead.offset h
  rw [length_take] at hoffset
  omega

/-- A slice brings the first of the items that are left. -/
theorem Reads.readChunk (h : reader.Reads contents) (count : Nat) :
    let slice := reader.readChunk codec contents count
    slice.2.Reads contents ∧ slice.2.nextOffset = min contents.length (reader.nextOffset + count) ∧
      restItems codec contents reader.nextOffset =
        slice.1 ++ restItems codec contents slice.2.nextOffset := by
  intro slice
  obtain ⟨hitems, hread⟩ := HasRead.readChunk h codec contents count
  have htext : contents.take reader.nextOffset ++ (contents.drop reader.nextOffset).take count =
      contents.take (reader.nextOffset + count) := take_add.symm
  rw [htext] at hitems hread
  have hoffset : slice.2.nextOffset = min contents.length (reader.nextOffset + count) := by
    have hoffset := hread.offset
    rw [length_take] at hoffset
    change slice.2.nextOffset = _ at hoffset
    omega
  have hsame : contents.take slice.2.nextOffset = contents.take (reader.nextOffset + count) := by
    rw [hoffset, ← take_take]
    exact take_of_length_le (length_take_le' _ _)
  refine ⟨?_, hoffset, ?_⟩
  · unfold Reads
    rw [hsame]
    exact hread
  · have hwhole := @parseAll_take _ codec contents slice.2.nextOffset
    rw [hsame, hitems, append_assoc] at hwhole
    rw [restItems, hwhole, drop_left]

end IncrementalJournalReader

variable {entry : JournalEntry Value}

theorem lineItem_entry (hfaithful : codec.Faithful) (hshows : codec.Shows)
    (hbound : entry.seq ≤ u64Max) (offset number : Nat) :
    lineItem codec (codec.toVec entry) offset number =
      if maxIncrementalLineBytes < (codec.toVec entry).length then
        .oversized (some entry.seq) offset number
      else .event entry.seq offset number (codec.toVec entry) := by
  have hversion : asU64 (some entry.v) = some 1 := by
    rw [entry.version]
    rfl
  have hseq : asU64 (some entry.seq) = some entry.seq := by simp [asU64, hbound]
  unfold lineItem
  split
  · rw [hshows.number entry hbound]
  · simp only [readLine, hfaithful.header, hversion, hseq, if_true]

theorem mem_lineItems {offset number : Nat} {lines : List Bytes} {item : JournalReadItem}
    (h : item ∈ lineItems codec offset number lines) :
    ∃ line offset number, item = lineItem codec line offset number := by
  induction lines generalizing offset number with
  | nil => cases h
  | cons line _ ih =>
    rcases mem_cons.mp h with rfl | hrest
    · exact ⟨line, offset, number, rfl⟩
    · exact ih hrest

theorem itemEvents_ne_nil (hshows : codec.Shows) {contents : Bytes} {event : Nat × Bytes}
    (h : event ∈ itemEvents (parseAll codec contents)) : event.2 ≠ [] := by
  obtain ⟨_, hitem, hdelivered⟩ := mem_filterMap.mp h
  rcases mem_append.mp hitem with hline | htail
  · obtain ⟨line, _, _, rfl⟩ := mem_lineItems hline
    rintro hempty
    have hline : line = [] := by
      unfold lineItem readLine at hdelivered
      split at hdelivered
      · cases hdelivered
      split at hdelivered
      · split at hdelivered
        · split at hdelivered
          · cases hdelivered
            exact hempty
          · cases hdelivered
        · cases hdelivered
      · cases hdelivered
    subst hline
    simp [lineItem, readLine, hshows.empty, JournalReadItem.delivered] at hdelivered
  · unfold tailItems at htail
    split at htail
    · obtain rfl := mem_singleton.mp htail
      cases hdelivered
    · cases htail

def entriesText (codec : JournalCodec Value) (entries : List (JournalEntry Value)) : Bytes :=
  entries.flatMap (entryLine codec)

def FitsLine (codec : JournalCodec Value) (entry : JournalEntry Value) : Prop :=
  (codec.toVec entry).length ≤ maxIncrementalLineBytes
  deriving Decidable

theorem parseAll_entriesText (hfaithful : codec.Faithful) (entries : List (JournalEntry Value)) :
    parseAll codec (entriesText codec entries) = lineItems codec 0 1 (entries.map codec.toVec) := by
  have hlines : completeLines newline (entriesText codec entries) = entries.map codec.toVec ∧
      unfinished newline (entriesText codec entries) = [] := by
    induction entries with
    | nil => exact ⟨rfl, rfl⟩
    | cons entry rest ih =>
      have htext : entriesText codec (entry :: rest) =
          codec.toVec entry ++ newline :: entriesText codec rest := by
        simp [entriesText, entryLine]
      rw [htext, completeLines_line (hfaithful.newline entry), ih.1,
        unfinished_line (hfaithful.newline entry), ih.2]
      exact ⟨rfl, rfl⟩
  rw [parseAll, hlines.1, hlines.2]
  exact append_nil _

section

variable {entries : List (JournalEntry Value)} (hfaithful : codec.Faithful) (hshows : codec.Shows)
  (hbound : ∀ entry ∈ entries, entry.seq ≤ u64Max)

include hfaithful hshows hbound

theorem itemNumbers_entriesText :
    itemNumbers (parseAll codec (entriesText codec entries)) = entries.map JournalEntry.seq := by
  rw [parseAll_entriesText hfaithful]
  generalize 0 = offset, 1 = number
  induction entries generalizing offset number with
  | nil => rfl
  | cons entry _ ih =>
    obtain ⟨hentry, hrest⟩ := forall_mem_cons.mp hbound
    have hnumber : ∀ offset number,
        (lineItem codec (codec.toVec entry) offset number).number = some entry.seq := by
      intro _ _
      rw [lineItem_entry hfaithful hshows hentry]
      split <;> rfl
    rw [map_cons, lineItems, itemNumbers, filterMap_cons_some (hnumber _ _), map_cons]
    exact congrArg _ (ih hrest _ _)

theorem itemEvents_entriesText :
    itemEvents (parseAll codec (entriesText codec entries)) =
      (entries.filter (FitsLine codec)).map fun entry => (entry.seq, codec.toVec entry) := by
  rw [parseAll_entriesText hfaithful]
  generalize 0 = offset, 1 = number
  induction entries generalizing offset number with
  | nil => rfl
  | cons entry _ ih =>
    obtain ⟨hentry, hrest⟩ := forall_mem_cons.mp hbound
    have hitem := lineItem_entry hfaithful hshows hentry offset number
    have htail := ih hrest (offset + ((codec.toVec entry).length + 1)) (number + 1)
    unfold itemEvents at htail ⊢
    rw [map_cons, lineItems, hitem, filterMap_cons, htail]
    by_cases hlong : maxIncrementalLineBytes < (codec.toVec entry).length
    · have hfits : ¬ FitsLine codec entry := not_le.mpr hlong
      rw [if_pos hlong, filter_cons_of_neg (by simpa using hfits)]
      rfl
    · have hfits : FitsLine codec entry := not_lt.mp hlong
      rw [if_neg hlong, filter_cons_of_pos (by simpa using hfits)]
      rfl

end

theorem parseU64_decimal {n : Nat} (h : n ≤ u64Max) : parseU64 (decimal n) = some n := by
  have hne : decimal n ≠ [] := by simp [decimal]
  have hdigits : ∀ c ∈ Nat.toDigits 10 n, (digitByte c).toNat = c.toNat := by
    intro c hc
    have hrange := isDigit_range (Nat.isDigit_of_mem_toDigits (by decide) (by decide) hc)
    exact UInt8.toNat_ofNat_of_lt' (by simp only [UInt8.size]; omega)
  have hvalue : (decimal n).foldl (fun value digit => 10 * value + (digit.toNat - 0x30)) 0 = n := by
    rw [decimal, foldl_map]
    calc (Nat.toDigits 10 n).foldl (fun value c => 10 * value + ((digitByte c).toNat - 0x30)) 0
        = Nat.ofDigitChars 10 (Nat.toDigits 10 n) 0 := by
          apply foldl_ext
          intro value c hc
          rw [hdigits c hc]
          rfl
      _ = n := Nat.ofDigitChars_ten_toDigits
  rw [parseU64, if_neg hne, hvalue]
  simpa [asU64] using h

/-- The number of a note is within the part of the line that is looked at. -/
theorem sequencePrefix_note {n : Nat} (length : Nat) (h : n ≤ u64Max) :
    sequencePrefix (noteHead ++ (decimal n ++ paddingTail length)) = some n := by
  have hlength := length_decimal_le h
  have hhead : noteHead.length = 13 := by decide +kernel
  have htake : (noteHead ++ (decimal n ++ paddingTail length)).take 1024 =
      noteHead ++ (decimal n ++ (paddingTail length).take (1011 - (decimal n).length)) := by
    rw [take_append, take_append, hhead, take_of_length_le (by omega), take_of_length_le (by omega)]
  have hmarker : ∀ rest, afterMarker (utf8 "\"seq\":") (noteHead ++ rest) = some rest :=
    fun _ => rfl
  have hdigits : ∀ count, ((paddingTail length).take count).takeWhile isAsciiDigit = [] := by
    intro count
    cases count <;> rfl
  rw [sequencePrefix, htake, hmarker]
  change parseU64 (takeWhile isAsciiDigit _) = _
  rw [takeWhile_append_of_pos (decimal_spec n).2.1, hdigits, append_nil, parseU64_decimal h]

theorem noteCodec_shows : noteCodec.Shows where
  number := fun entry hbound => sequencePrefix_note entry.payload hbound
  empty := by decide +kernel

end Bridget.Journal
