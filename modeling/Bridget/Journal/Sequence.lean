import Bridget.Journal.Session

/-!
# Sequence numbers across crashes

A new process reads the last number off the files, each of which is decoded as a whole. So a
torn line does no harm as long as the bytes it leaves are a text; one that ends inside a
character hides all the entries of its file, and their numbers are given out again.
-/

namespace Bridget.Journal

open Foundation Function List SessionJournal

variable {Value : Type} {codec : JournalCodec Value}

/-- What is assumed of the JSON library: the members of an entry are read back, and its text is
not empty, is UTF-8 and holds no line break. -/
structure JournalCodec.Faithful (codec : JournalCodec Value) : Prop where
  header : ∀ entry, codec.header (codec.toVec entry) = some ⟨some entry.v, some entry.seq⟩
  nonempty : ∀ entry, codec.toVec entry ≠ []
  utf8 : ∀ entry, Utf8 (codec.toVec entry)
  newline : ∀ entry, newline ∉ codec.toVec entry
  carriageReturn : ∀ entry, carriageReturn ∉ codec.toVec entry

/-! ## Texts -/

theorem utf8_nil : Utf8 [] := ByteArray.isValidUTF8_empty

theorem Utf8.append {a b : Bytes} (ha : Utf8 a) (hb : Utf8 b) : Utf8 (a ++ b) := by
  exact ByteArray.IsValidUTF8.append ha hb

theorem utf8_newline : Utf8 [newline] := by decide

/-! ## Lines of a file -/

variable {content : Bytes} {entry : JournalEntry Value}

/-- The entry stands in the file as a whole line. -/
def Complete (codec : JournalCodec Value) (content : Bytes) (entry : JournalEntry Value) : Prop :=
  codec.toVec entry ∈ completeLines newline content

/-- A line of the file is the text of the entry, whether or not it has been ended. -/
def Present (codec : JournalCodec Value) (content : Bytes) (entry : JournalEntry Value) : Prop :=
  Complete codec content entry ∨ unfinished newline content = codec.toVec entry

theorem Complete.append (h : Complete codec content entry) (bytes : Bytes) :
    Complete codec (content ++ bytes) entry := by
  unfold Complete
  rw [completeLines_append]
  exact mem_append_left _ h

theorem unfinished_isolatePartialTail (content : Bytes) :
    unfinished newline (isolatePartialTail content) = [] := by
  unfold isolatePartialTail
  split
  next hwhole =>
    rcases hwhole with rfl | hlast
    · rfl
    · obtain ⟨init, rfl⟩ := getLast?_eq_some_iff.mp hlast
      exact unfinished_concat init
  · exact unfinished_concat content

theorem Complete.isolate (h : Complete codec content entry) :
    Complete codec (isolatePartialTail content) entry := by
  unfold isolatePartialTail
  split
  · exact h
  · exact h.append _

theorem completeLines_writeLine (hfaithful : codec.Faithful) (entry : JournalEntry Value)
    (hwhole : unfinished newline content = []) :
    completeLines newline (content ++ entryLine codec entry) =
      completeLines newline content ++ [codec.toVec entry] := by
  rw [completeLines_append, hwhole, nil_append, entryLine,
    completeLines_line (hfaithful.newline entry), completeLines_of_not_mem not_mem_nil]

theorem unfinished_writeLine (entry : JournalEntry Value) :
    unfinished newline (content ++ entryLine codec entry) = [] := by
  rw [entryLine, ← append_assoc, unfinished_concat]

theorem mem_validEvents (hfaithful : codec.Faithful) (hutf8 : Utf8 content)
    (h : Present codec content entry) :
    ⟨some entry.v, some entry.seq⟩ ∈ validEvents codec content := by
  unfold validEvents
  rw [if_pos hutf8, mem_filter]
  refine ⟨mem_filterMap.mpr ⟨codec.toVec entry, ?_, hfaithful.header entry⟩, ?_⟩
  · rcases h with hcomplete | hrest
    · apply mem_append_left
      refine mem_map.mpr ⟨_, hcomplete, if_neg ?_⟩
      intro hlast
      exact hfaithful.carriageReturn entry (mem_of_getLast? hlast)
    · apply mem_append_right
      rw [hrest, if_neg (hfaithful.nonempty entry)]
      exact mem_singleton_self _
  · simp [entry.version, asU64, u64Max]

theorem le_lastSequenceInFiles (hfaithful : codec.Faithful) {files : List Bytes}
    (hmem : content ∈ files) (hutf8 : Utf8 content) (h : Present codec content entry)
    (hbound : entry.seq ≤ u64Max) : entry.seq ≤ lastSequenceInFiles codec files := by
  have hseq : entry.seq ∈
      (files.flatMap (validEvents codec)).filterMap fun value => asU64 value.seq := by
    refine mem_filterMap.mpr ⟨⟨some entry.v, some entry.seq⟩, ?_, ?_⟩
    · exact mem_flatMap.mpr ⟨content, hmem, mem_validEvents hfaithful hutf8 h⟩
    · simp [asU64, hbound]
  unfold lastSequenceInFiles
  cases hmax :
      ((files.flatMap (validEvents codec)).filterMap fun value => asU64 value.seq).max? with
  | none =>
    rw [max?_eq_none_iff] at hmax
    rw [hmax] at hseq
    cases hseq
  | some => exact (max?_eq_some_iff.mp hmax).2 _ hseq

/-! ## Files of a directory -/

variable {directory : Directory} {journal : SessionJournal} {date file : String} {bytes : Bytes}

theorem contentOf_insert : contentOf (directory.insert file bytes) = update
    (contentOf directory) file bytes := by
  funext other
  unfold contentOf
  by_cases hother : other = file
  · subst hother
    rw [AList.lookup_insert, update_self]
    rfl
  · rw [AList.lookup_insert_ne hother, update_of_ne hother]

/-- Opening a day leaves each file as it is or isolates its tail. -/
theorem contentOf_openDay (file : String) :
    contentOf (journal.openDay date directory) file = contentOf directory file ∨
      contentOf (journal.openDay date directory) file =
        isolatePartialTail (contentOf directory file) := by
  unfold openDay
  split
  · exact .inl rfl
  rw [contentOf_insert]
  by_cases hfile : file = dayFile date
  · subst hfile
    exact .inr (update_self ..)
  · exact .inl (update_of_ne hfile ..)

theorem contentOf_writeAll :
    contentOf (writeAll directory date bytes) = update (contentOf directory)
      (dayFile date) (contentOf directory (dayFile date) ++ bytes) :=
  contentOf_insert

theorem Utf8.isolate (h : Utf8 content) : Utf8 (isolatePartialTail content) := by
  unfold isolatePartialTail
  split
  · exact h
  · exact h.append utf8_newline

theorem utf8_openDay (h : ∀ file, Utf8 (contentOf directory file)) (file : String) :
    Utf8 (contentOf (journal.openDay date directory) file) := by
  rcases contentOf_openDay file with hsame | hisolated
  · rw [hsame]
    exact h file
  · rw [hisolated]
    exact (h file).isolate

theorem utf8_writeAll (h : ∀ file, Utf8 (contentOf directory file)) (hbytes : Utf8 bytes)
    (file : String) : Utf8 (contentOf (writeAll directory date bytes) file) := by
  rw [contentOf_writeAll]
  by_cases hfile : file = dayFile date
  · subst hfile
    rw [update_self]
    exact (h _).append hbytes
  · rw [update_of_ne hfile]
    exact h file

theorem Complete.openDay (h : Complete codec (contentOf directory file) entry) :
    Complete codec (contentOf (journal.openDay date directory) file) entry := by
  rcases contentOf_openDay file with hsame | hisolated
  · rwa [hsame]
  · rw [hisolated]
    exact h.isolate

theorem Complete.writeAll (h : Complete codec (contentOf directory file) entry) :
    Complete codec (contentOf (writeAll directory date bytes) file) entry := by
  rw [contentOf_writeAll]
  by_cases hfile : file = dayFile date
  · subst hfile
    rw [update_self]
    exact h.append bytes
  · rwa [update_of_ne hfile]

theorem Present.of_openDay (hfaithful : codec.Faithful)
    (h : Present codec (contentOf (journal.openDay date directory) file) entry) :
    Present codec (contentOf directory file) entry := by
  rcases contentOf_openDay file with hsame | hisolated
  · rwa [hsame] at h
  rw [hisolated] at h
  rcases h with hcomplete | hrest
  · unfold isolatePartialTail at hcomplete
    split at hcomplete
    · exact .inl hcomplete
    unfold Complete at hcomplete
    rw [completeLines_concat] at hcomplete
    rcases mem_append.mp hcomplete with hline | hline
    · exact .inl hline
    · exact .inr (mem_singleton.mp hline).symm
  · rw [unfinished_isolatePartialTail] at hrest
    exact absurd hrest.symm (hfaithful.nonempty entry)

theorem Present.of_writeLine (hfaithful : codec.Faithful) {written : JournalEntry Value}
    (hwhole : unfinished newline (contentOf directory (dayFile date)) = []) (h : Present codec
      (contentOf (Journal.writeAll directory date (entryLine codec written)) file) entry) :
    Present codec (contentOf directory file) entry ∨ entry.seq = written.seq := by
  rw [contentOf_writeAll] at h
  by_cases hfile : file = dayFile date
  · subst hfile
    rw [update_self] at h
    rcases h with hcomplete | hrest
    · unfold Complete at hcomplete
      rw [completeLines_writeLine hfaithful written hwhole] at hcomplete
      rcases mem_append.mp hcomplete with hline | hline
      · exact .inl (.inl hline)
      · have hheader := hfaithful.header entry
        rw [mem_singleton.mp hline, hfaithful.header written] at hheader
        simp only [Option.some.injEq, Header.mk.injEq] at hheader
        exact .inr hheader.2.symm
    · rw [unfinished_writeLine] at hrest
      exact absurd hrest.symm (hfaithful.nonempty entry)
  · rw [update_of_ne hfile] at h
    exact .inl h

theorem Present.le_lastSequence (hfaithful : codec.Faithful)
    (hutf8 : ∀ file, Utf8 (contentOf directory file))
    (h : Present codec (contentOf directory file) entry) (hbound : entry.seq ≤ u64Max) :
    entry.seq ≤ lastSequence codec directory := by
  have hutf8 := hutf8 file
  unfold contentOf at h hutf8
  cases hlookup : directory.lookup file with
  | none =>
    rw [hlookup] at h
    rcases h with hcomplete | hrest
    · cases hcomplete
    · exact absurd hrest.symm (hfaithful.nonempty entry)
  | some content =>
    rw [hlookup] at h hutf8
    have hmem : content ∈ directory.entries.map Sigma.snd :=
      mem_map.mpr ⟨⟨file, content⟩, AList.mem_lookup_iff.mp hlookup, rfl⟩
    exact le_lastSequenceInFiles hfaithful hmem hutf8 h hbound

variable {s : JournalState} {event : JournalEvent Value} {request : Append Value}

/-- No line has used up the numbers. -/
def Roomy (codec : JournalCodec Value) (directory : Directory) : Prop :=
  ∀ file entry, Complete codec (contentOf directory file) entry → entry.seq < u64Max

/-- A process that starts or appends finds numbers left, and an append that is cut leaves a
text behind. -/
def JournalEvent.Clean (codec : JournalCodec Value) (s : JournalState) :
    JournalEvent Value → Prop
  | .new _ | .append _ => Roomy codec s.directory
  | .crash => True
  | .crashedAppend request written => ∀ journal ∈ s.journal, ∀ entry ∈ request.entry codec journal,
      ∀ count ∈ written, Utf8 ((entryLine codec entry).take count)

structure JournalState.Sound (codec : JournalCodec Value) (s : JournalState) : Prop where
  readable : ∀ file, Utf8 (contentOf s.directory file)
  /-- What was acknowledged is on disk. -/
  stored : ∀ seq ∈ s.acknowledged, ∃ file entry,
    Complete codec (contentOf s.directory file) entry ∧ entry.seq = seq
  increasing : s.acknowledged.Pairwise (· < ·)
  /-- The next number is beyond those on disk. -/
  ahead : ∀ journal ∈ s.journal, ∀ file entry, Present codec (contentOf s.directory file) entry →
    entry.seq < journal.nextSeq ∨ u64Max ≤ entry.seq
  /-- An open file has no torn tail. -/
  whole : ∀ journal ∈ s.journal, ∀ date ∈ journal.openFile,
    unfinished newline (contentOf s.directory (dayFile date)) = []

theorem JournalState.Sound.new (hfaithful : codec.Faithful) (h : s.Sound codec)
    (sessionId : String) : (s.step codec (.new sessionId)).Sound codec := by
  refine ⟨h.readable, h.stored, h.increasing, ?_, ?_⟩
  · rintro _ ⟨⟩ _ entry hpresent
    by_cases hbound : entry.seq < u64Max
    · have hlast := hpresent.le_lastSequence hfaithful h.readable hbound.le
      left
      change entry.seq < min u64Max (lastSequence codec s.directory + 1)
      omega
    · exact .inr (not_lt.mp hbound)
  · rintro _ ⟨⟩ _ hdate
    cases hdate

theorem JournalState.Sound.whole_openDay (h : s.Sound codec) (hjournal : s.journal = some journal)
    (date : String) :
    unfinished newline (contentOf (journal.openDay date s.directory) (dayFile date)) = [] := by
  unfold openDay
  split
  next hopen => exact h.whole journal hjournal date hopen
  · rw [contentOf_insert, update_self]
    exact unfinished_isolatePartialTail _

theorem Append.entry_seq (h : request.entry codec journal = some entry) :
    entry.seq = journal.nextSeq := by
  cases request with
  | appendAt | appendEntry =>
    simp only [Append.entry] at h
    split at h
    · cases h
      rfl
    · cases h

theorem JournalState.Sound.append (hfaithful : codec.Faithful) (h : s.Sound codec)
    (hroomy : Roomy codec s.directory) (request : Append Value) :
    (s.step codec (.append request)).Sound codec := by
  unfold JournalState.step
  dsimp only
  split
  next seq _ _ hstep =>
    obtain ⟨journal, hjournal, happend⟩ := Option.bind_eq_some_iff.mp hstep
    simp only [SessionJournal.append, Option.bind_eq_bind, Option.bind_eq_some_iff,
      SessionJournal.appendEntryAt, Option.pure_def, Option.some.injEq, Prod.mk.injEq] at happend
    obtain ⟨entry, hentry, rfl, rfl, rfl⟩ := happend
    have hwhole := h.whole_openDay hjournal request.date
    have hseq := Append.entry_seq hentry
    constructor
    · exact utf8_writeAll (utf8_openDay h.readable) ((hfaithful.utf8 entry).append utf8_newline)
    · intro seq hmem
      rcases mem_append.mp hmem with hold | hnew
      · obtain ⟨file, found, hfound, hfoundSeq⟩ := h.stored seq hold
        exact ⟨file, found, hfound.openDay.writeAll, hfoundSeq⟩
      refine ⟨dayFile request.date, entry, ?_, hseq.trans (mem_singleton.mp hnew).symm⟩
      unfold Complete
      rw [contentOf_writeAll, update_self, completeLines_writeLine hfaithful entry hwhole]
      exact mem_append_right _ (mem_singleton_self _)
    · -- everything acknowledged so far is on disk, hence below the new number
      refine pairwise_append.mpr ⟨h.increasing, pairwise_singleton _ _, ?_⟩
      intro old hold new hnew
      obtain rfl := mem_singleton.mp hnew
      obtain ⟨file, found, hfound, rfl⟩ := h.stored old hold
      rcases h.ahead journal hjournal file found (.inl hfound) with hless | hfull
      · exact hless
      · exact absurd (hroomy file found hfound) (not_lt.mpr hfull)
    · rintro _ ⟨⟩ file found hpresent
      change found.seq < min u64Max (journal.nextSeq + 1) ∨ u64Max ≤ found.seq
      rcases hpresent.of_writeLine hfaithful hwhole with hpresent | _
      · have hahead := h.ahead journal hjournal file found (hpresent.of_openDay hfaithful)
        omega
      · omega
    · rintro _ ⟨⟩ date ⟨⟩
      rw [contentOf_writeAll, update_self]
      exact unfinished_writeLine entry
  · exact h

theorem JournalState.Sound.crash (h : s.Sound codec) : (s.step codec .crash).Sound codec :=
  ⟨h.readable, h.stored, h.increasing, nofun, nofun⟩

theorem JournalState.Sound.crashedAppend (h : s.Sound codec)
    {written : Option Nat} (hclean : (JournalEvent.crashedAppend request written).Clean codec s) :
    (s.step codec (.crashedAppend request written)).Sound codec := by
  unfold JournalState.step
  dsimp only
  split
  next journal hjournal =>
    unfold tornAppend
    split
    next entry count hentry =>
      have htorn := hclean journal hjournal entry hentry count rfl
      refine ⟨utf8_writeAll (utf8_openDay h.readable) htorn, ?_, h.increasing, nofun, nofun⟩
      intro seq hmem
      obtain ⟨file, found, hfound, hseq⟩ := h.stored seq hmem
      exact ⟨file, found, hfound.openDay.writeAll, hseq⟩
    · exact ⟨h.readable, h.stored, h.increasing, nofun, nofun⟩
  · exact h

theorem JournalState.Sound.step (hfaithful : codec.Faithful) (h : s.Sound codec)
    (hclean : event.Clean codec s) : (s.step codec event).Sound codec := by
  cases event with
  | new sessionId => exact h.new hfaithful sessionId
  | append request => exact h.append hfaithful hclean request
  | crash => exact h.crash
  | crashedAppend => exact h.crashedAppend hclean

/-- In every run whose torn lines are texts, what is acknowledged increases, and a process that
starts goes on beyond every complete entry in the directory. -/
theorem sequence_numbers_stay_unique {events : List (JournalEvent Value)}
    (hfaithful : codec.Faithful) (hstart : ∀ file, Utf8 (contentOf directory file))
    (hrun : Run (JournalState.step codec) (JournalEvent.Clean codec) (.start directory) events s) :
    s.acknowledged.Pairwise (· < ·) ∧
      (Roomy codec s.directory → ∀ sessionId file entry,
        Complete codec (contentOf s.directory file) entry →
          entry.seq < (SessionJournal.new codec s.directory sessionId).nextSeq) := by
  have hsound : s.Sound codec := by
    apply hrun.invariant (JournalState.Sound codec)
    · exact fun _ _ hsound hclean => hsound.step hfaithful hclean
    · exact ⟨hstart, nofun, .nil, nofun, nofun⟩
  refine ⟨hsound.increasing, ?_⟩
  intro hroomy sessionId file entry hcomplete
  have hahead := (hsound.new hfaithful sessionId).ahead _ rfl file entry (.inl hcomplete)
  exact hahead.resolve_right (not_le.mpr (hroomy file entry hcomplete))

/-! ### A journal of notes -/

def noteHead : Bytes := utf8 "\x7b\"v\":1,\"seq\":"

def paddingHead : Bytes :=
  utf8 ",\"ts\":\"2026-01-01T00:00:00Z\",\"session_id\":\"s\",\"event\":\"note\",\"payload\":\""

def paddingByte : UInt8 := 0x78

def paddingEnd : Bytes := utf8 "é\"\x7d"

def paddingTail (length : Nat) : Bytes :=
  paddingHead ++ (replicate length paddingByte ++ paddingEnd)

def digitByte (c : Char) : UInt8 := UInt8.ofNat c.toNat

def decimal (n : Nat) : Bytes := (Nat.toDigits 10 n).map digitByte

/-- The payload of a note is so many equal letters before a last one of two bytes. -/
def noteCodec : JournalCodec Nat where
  toVec entry := noteHead ++ (decimal entry.seq ++ paddingTail entry.payload)
  header line :=
    let rest := line.drop noteHead.length
    let tail := rest.dropWhile isAsciiDigit
    if noteHead.isPrefixOf line ∧ paddingHead.isPrefixOf tail ∧
        (tail.drop paddingHead.length).dropWhile (· == paddingByte) = paddingEnd then
      some ⟨some 1, some (Nat.ofDigitChars 10
        ((rest.takeWhile isAsciiDigit).map fun byte => Char.ofNat byte.toNat) 0)⟩
    else none
  validateJournalWrite _ _ := true

theorem length_decimal_le {n : Nat} (h : n ≤ u64Max) : (decimal n).length ≤ 20 := by
  rw [decimal, length_map]
  apply Nat.toDigits_length 10 n 20 (by decide)
  exact h.trans_lt (by decide)

def paddedNote (seq length : Nat) : JournalEntry Nat :=
  .new seq "2026-01-01T00:00:00Z" "s" "note" none length

/-- The text of a note is a little longer than its padding. -/
theorem length_paddedNote {seq : Nat} (length : Nat) (hseq : seq ≤ u64Max) :
    length < (noteCodec.toVec (paddedNote seq length)).length ∧
      (noteCodec.toVec (paddedNote seq length)).length < length + 128 := by
  have hlow : 0 < noteHead.length := by decide +kernel
  have hhigh : noteHead.length + paddingHead.length + paddingEnd.length < 108 := by decide +kernel
  have hdecimal := length_decimal_le hseq
  simp only [noteCodec, paddingTail, paddedNote, JournalEntry.new, length_append, length_replicate]
  omega

theorem digitByte_spec {c : Char} (h : c.isDigit = true) :
    Utf8 [digitByte c] ∧ isAsciiDigit (digitByte c) = true ∧
      Char.ofNat (digitByte c).toNat = c := by
  obtain ⟨hlow, hhigh⟩ := isDigit_range h
  rw [← Char.ofNat_toNat c]
  generalize c.toNat = n at hlow hhigh
  interval_cases n <;> decide +kernel

theorem decimal_spec (n : Nat) :
    Utf8 (decimal n) ∧ (∀ byte ∈ decimal n, isAsciiDigit byte = true) ∧
      Nat.ofDigitChars 10 ((decimal n).map fun byte => Char.ofNat byte.toNat) 0 = n := by
  have hdigits : ∀ c ∈ Nat.toDigits 10 n, c.isDigit = true := fun c hc =>
    Nat.isDigit_of_mem_toDigits (by decide) (by decide) hc
  unfold decimal
  refine ⟨?_, ?_, ?_⟩
  · generalize Nat.toDigits 10 n = digits at hdigits
    induction digits with
    | nil => exact utf8_nil
    | cons c _ ih =>
      apply Utf8.append (digitByte_spec (hdigits c (by simp))).1
      exact ih fun c' hc' => hdigits c' (by simp [hc'])
  · intro byte hbyte
    obtain ⟨c, hc, rfl⟩ := mem_map.mp hbyte
    exact (digitByte_spec (hdigits c hc)).2.1
  · rw [map_map]
    have hid : (Nat.toDigits 10 n).map ((fun byte => Char.ofNat byte.toNat) ∘ digitByte) =
        Nat.toDigits 10 n := by
      conv_rhs => rw [← map_id (Nat.toDigits 10 n)]
      apply map_congr_left
      exact fun c hc => (digitByte_spec (hdigits c hc)).2.2
    rw [hid, Nat.ofDigitChars_ten_toDigits]

theorem utf8_padding (length : Nat) : Utf8 (replicate length paddingByte) := by
  induction length with
  | zero => exact utf8_nil
  | succ _ ih =>
    have hbyte : Utf8 [paddingByte] := by decide +kernel
    exact hbyte.append ih

theorem not_mem_noteText {byte : UInt8} (n length : Nat) (hdigit : isAsciiDigit byte = false)
    (hhead : byte ∉ noteHead ++ paddingHead) (hbyte : byte ≠ paddingByte)
    (hend : byte ∉ paddingEnd) : byte ∉ noteHead ++ (decimal n ++ paddingTail length) := by
  rw [mem_append, not_or] at hhead
  simp only [paddingTail, mem_append, mem_replicate]
  rintro (h | h | h | ⟨-, h⟩ | h)
  · exact hhead.1 h
  · exact absurd ((decimal_spec n).2.1 byte h) (by simp [hdigit])
  · exact hhead.2 h
  · exact hbyte h
  · exact hend h

theorem noteCodec_faithful : noteCodec.Faithful where
  header := by
    intro entry
    obtain ⟨-, hdigits, hvalue⟩ := decimal_spec entry.seq
    have hpadding : ∀ byte ∈ replicate entry.payload paddingByte, (byte == paddingByte) = true := by
      intro byte hbyte
      exact beq_iff_eq.mpr (eq_of_mem_replicate hbyte)
    have htail : (decimal entry.seq ++ paddingTail entry.payload).dropWhile isAsciiDigit =
        paddingTail entry.payload := by
      rw [dropWhile_append_of_pos hdigits]
      rfl
    have hnumber : (decimal entry.seq ++ paddingTail entry.payload).takeWhile isAsciiDigit =
        decimal entry.seq := by
      rw [takeWhile_append_of_pos hdigits]
      exact append_nil _
    simp only [noteCodec, entry.version, drop_left, htail, hnumber, hvalue]
    refine if_pos ⟨by simp, by simp [paddingTail], ?_⟩
    rw [paddingTail, drop_left, dropWhile_append_of_pos hpadding]
    rfl
  nonempty := fun _ => append_ne_nil_of_left_ne_nil (by decide +kernel) _
  utf8 := by
    intro entry
    have hhead : Utf8 noteHead ∧ Utf8 paddingHead ∧ Utf8 paddingEnd := by decide +kernel
    exact hhead.1.append ((decimal_spec _).1.append
      (hhead.2.1.append ((utf8_padding _).append hhead.2.2)))
  newline := fun entry => not_mem_noteText entry.seq entry.payload (by decide +kernel)
    (by decide +kernel) (by decide +kernel) (by decide +kernel)
  carriageReturn := fun entry => not_mem_noteText entry.seq entry.payload (by decide +kernel)
    (by decide +kernel) (by decide +kernel) (by decide +kernel)

theorem roomy_of_lines (hfaithful : codec.Faithful)
    (h : ∀ stored ∈ directory.entries, ∀ line ∈ completeLines newline stored.2,
      ((codec.header line).bind Header.seq).all fun seq => seq < u64Max) :
    Roomy codec directory := by
  intro file _ hcomplete
  unfold contentOf at hcomplete
  cases hlookup : directory.lookup file with
  | none =>
    rw [hlookup] at hcomplete
    cases hcomplete
  | some content =>
    rw [hlookup] at hcomplete
    have hline := h ⟨file, content⟩ (AList.mem_lookup_iff.mp hlookup) _ hcomplete
    simpa [hfaithful.header] using hline

def noteAppend : Append Nat := .appendAt "2026-01-01" "2026-01-01T00:00:00Z" "note" none 0

/-- A second note is cut after some of its bytes, and a new process writes a third one. -/
def tornNotes (count : Nat) : List (JournalEvent Nat) :=
  [.new "s", .append noteAppend, .crashedAppend noteAppend (some count), .new "s",
    .append noteAppend]

/-- A line that is cut between two characters costs no number. -/
theorem torn_note_keeps_numbers :
    ((tornNotes 20).foldl (JournalState.step noteCodec) (.start ∅)).acknowledged = [1, 2] ∧
      ((tornNotes 20).foldl (JournalState.step noteCodec) (.start ∅)).acknowledged.Pairwise
        (· < ·) := by
  obtain ⟨s, hrun⟩ : ∃ s, Run (JournalState.step noteCodec) (JournalEvent.Clean noteCodec)
      (.start ∅) (tornNotes 20) s := by
    refine ⟨_, .cons (roomy_of_lines noteCodec_faithful ?_)
      (.cons (roomy_of_lines noteCodec_faithful ?_) (.cons ?_
        (.cons (roomy_of_lines noteCodec_faithful ?_)
          (.cons (roomy_of_lines noteCodec_faithful ?_) (.nil _)))))⟩
    · decide +kernel
    · decide +kernel
    · rintro _ ⟨⟩ _ ⟨⟩ _ ⟨⟩
      decide +kernel
    · decide +kernel
    · decide +kernel
  have hempty : ∀ file, Utf8 (contentOf ∅ file) := fun _ => utf8_nil
  refine ⟨by decide +kernel, ?_⟩
  rw [← hrun.eq_foldl]
  exact (sequence_numbers_stay_unique noteCodec_faithful hempty hrun).1

/-- A line that is cut inside the last character of its payload makes the file unreadable, and
the number of the entry before it is given out again. -/
theorem torn_character_reuses_number :
    noteCodec.Faithful ∧
      ((tornNotes 87).foldl (JournalState.step noteCodec) (.start ∅)).acknowledged = [1, 1] :=
  ⟨noteCodec_faithful, by decide +kernel⟩

end Bridget.Journal
