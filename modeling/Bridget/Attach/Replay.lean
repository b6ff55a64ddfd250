import Bridget.Attach.Emission
import Bridget.Journal.Slices

/-!
# A replay from files that do not change

A view that reads the journal from some number on gets nearer to its end with every turn: it
sends a part of an event, or takes in a slice, or goes on to the next file. What is left to do
also bounds the messages that it will still send.
-/

namespace Bridget.Attach

open Foundation Journal FragmentQueue List Option

/-- The most messages that items can lead to: one for each of them, and one for each byte of an
event. -/
def itemsCost (items : List JournalReadItem) : Nat :=
  items.length + ((itemEvents items).map fun event => event.2.length).sum

def journalItems {Value : Type} (codec : JournalCodec Value) (directory : Directory) :
    List JournalReadItem :=
  (journalFiles directory).flatMap fun path => parseAll codec (contentOf directory path)

def deliverable {Value : Type} (codec : JournalCodec Value) (directory : Directory) : List Nat :=
  (itemEvents (journalItems codec directory)).map Prod.fst

namespace RelaySubscription

variable (s : RelaySubscription)

/-- An item leads to one message at most, only its event can be queued, and only its number
can be what the next one is expected to follow. -/
theorem takeItem_spec (item : JournalReadItem) :
    ∃ expected events, (s.takeItem item).2 =
          { s with
            expectedSnapshotSeq := expected
            pendingEvents := s.pendingEvents ++ events } ∧
        events.Sublist item.delivered.toList ∧ (s.takeItem item).1.length ≤ 1 ∧
        (expected = s.expectedSnapshotSeq ∨ ∃ n ∈ item.number, expected = checkedSucc n) := by
  have hsame : s = { s with pendingEvents := s.pendingEvents ++ [] } := by rw [append_nil]
  cases item with
  | event seq _ _ bytes =>
    have hqueued : [(seq, bytes)].Sublist [(seq, bytes)] := .refl _
    simp only [takeItem]
    split
    · split
      · split
        · exact ⟨_, [], hsame, nil_sublist _, le_rfl, .inl rfl⟩
        split
        · exact ⟨_, _, rfl, hqueued, le_rfl, .inr ⟨seq, rfl, rfl⟩⟩
        · exact ⟨_, _, rfl, hqueued, Nat.zero_le _, .inr ⟨seq, rfl, rfl⟩⟩
      · exact ⟨_, _, rfl, hqueued, Nat.zero_le _, .inr ⟨seq, rfl, rfl⟩⟩
    · exact ⟨_, [], hsame, nil_sublist _, Nat.zero_le _, .inl rfl⟩
  | unreadable => exact ⟨_, [], hsame, nil_sublist _, le_rfl, .inl rfl⟩
  | oversized seq =>
    cases seq with
    | none => exact ⟨_, [], hsame, nil_sublist _, le_rfl, .inl rfl⟩
    | some seq =>
      simp only [takeItem]
      split
      · exact ⟨_, [], hsame, nil_sublist _, Nat.zero_le _, .inl rfl⟩
      · refine ⟨checkedSucc seq, [], ?_, nil_sublist _, le_rfl, .inr ⟨seq, rfl, rfl⟩⟩
        rw [append_nil]

theorem takeItems_spec (items : List JournalReadItem) :
    ∃ expected events, (s.takeItems items).2 =
          { s with
            expectedSnapshotSeq := expected
            pendingEvents := s.pendingEvents ++ events } ∧
        events.Sublist (itemEvents items) ∧ (s.takeItems items).1.length ≤ items.length := by
  induction items generalizing s with
  | nil => exact ⟨s.expectedSnapshotSeq, [], by simp [takeItems], nil_sublist _, le_rfl⟩
  | cons item _ ih =>
    obtain ⟨_, events, hitem, hevents, _, -⟩ := s.takeItem_spec item
    obtain ⟨expected', events', hrest, hevents', _⟩ := ih (s.takeItem item).2
    refine ⟨expected', events ++ events', ?_, ?_, ?_⟩
    · rw [takeItems, hrest, hitem, append_assoc]
    · rw [itemEvents_cons]
      exact hevents.append hevents'
    · simp only [takeItems, length_append, length_cons]
      omega

/-! ## What is left to do -/

variable {Value : Type} (codec : JournalCodec Value) (directory : Directory)

def unreadItems : List String → Nat → List JournalReadItem
  | [], _ => []
  | path :: later, offset =>
    restItems codec (contentOf directory path) offset ++
      later.flatMap fun path => parseAll codec (contentOf directory path)

def unreadBytes : List String → Nat → Nat
  | [], _ => 0
  | path :: later, offset =>
    (contentOf directory path).length - offset + 1 +
      (later.map fun path => (contentOf directory path).length + 1).sum

theorem unreadItems_zero (paths : List String) :
    unreadItems codec directory paths 0 =
      paths.flatMap fun path => parseAll codec (contentOf directory path) := by
  cases paths with
  | nil => rfl
  | cons => simp [unreadItems]

theorem unreadBytes_zero (paths : List String) :
    unreadBytes directory paths 0 =
      (paths.map fun path => (contentOf directory path).length + 1).sum := by
  cases paths with
  | nil => rfl
  | cons => simp [unreadBytes]

variable (s : RelaySubscription)

def currentReader : IncrementalJournalReader := s.reader.getD .new

def Slice (path : String) (items : List JournalReadItem) (reader : IncrementalJournalReader) :
    Prop :=
  s.currentReader.readChunk codec (contentOf directory path) attachRelayReadBytes = (items, reader)

def unread : List JournalReadItem :=
  unreadItems codec directory (s.files.drop s.fileIndex) s.currentReader.nextOffset

/-- What is left of a replay: it goes down with every turn and by what the turn sends. -/
def remaining : Nat :=
  if s.caughtUp then 0
  else itemsCost (s.unread codec directory) +
    unreadBytes directory (s.files.drop s.fileIndex) s.currentReader.nextOffset + s.unsent + 1

/-- The event is still to be read and will not be skipped, or it is the last one that is or was
queued. -/
def Due (unread : List JournalReadItem) (seq : Nat) : Prop :=
  (seq ∈ (itemEvents unread).map Prod.fst ∧ ∀ expected ∈ s.expectedSnapshotSeq, expected ≤ seq) ∨
    itemEvents unread = [] ∧
      (s.numbers.getLast? = some seq ∨ s.numbers = [] ∧ s.throughSeq = some seq)

structure Replays : Prop where
  replaying : s.caughtUp = false
  window : ∃ first, s.window = .seq first
  files : s.files = journalFiles directory
  reading : ∀ path, s.files[s.fileIndex]? = some path →
    s.currentReader.Reads (contentOf directory path)
  whole : s.Whole
  queued : ∀ n ∈ s.numbers, n ∈ deliverable codec directory
  through : ∀ n ∈ s.throughSeq, n ∈ deliverable codec directory
  due : ∀ last, (deliverable codec directory).getLast? = some last →
    (∀ first ∈ s.fromSeq, first ≤ last) → s.Due (s.unread codec directory) last

variable {codec directory s} {seq last : Nat} {final : Bool} {rest : List Nat}
  {queue : FragmentQueue} {path : String}

theorem addFiles_of_subset {files others : List String} (h : ∀ path ∈ others, path ∈ files) :
    addFiles files others = files := by
  induction others with
  | nil => rfl
  | cons _ _ ih =>
    obtain ⟨hpath, hrest⟩ := forall_mem_cons.mp h
    rw [addFiles, if_pos hpath, ih hrest]

theorem Replays.refreshFiles (h : s.Replays codec directory) (hostToday : String) :
    s.refreshFiles codec directory hostToday = s := by
  obtain ⟨_, hwindow⟩ := h.window
  have hfiles : addFiles s.files (journalFiles directory) = s.files := by
    apply addFiles_of_subset
    rw [h.files]
    exact fun _ hpath => hpath
  simp only [RelaySubscription.refreshFiles, resolveWindow, h.replaying, Bool.false_eq_true,
    if_false, hwindow, hfiles]
  rw [← hwindow, ← h.replaying]

theorem finishSlice_cases {length : Nat} {reader : IncrementalJournalReader}
    (hreplaying : s.caughtUp = false) :
    (length ≤ reader.nextOffset ∧ s.fileIndex + 1 < s.files.length ∧ s.finishSlice length reader =
          ([], { s with reader := none, fileIndex := s.fileIndex + 1 })) ∨
      (length ≤ reader.nextOffset ∧ s.files.length ≤ s.fileIndex + 1 ∧ s.numbers = [] ∧
        s.finishSlice length reader = s.markCaughtUp) ∨
      ((reader.nextOffset < length ∨ s.files.length ≤ s.fileIndex + 1 ∧ s.numbers ≠ []) ∧
        s.finishSlice length reader = ([], s)) := by
  have hpending : s.hasPendingOutput = false ↔ s.numbers = [] := by
    rw [numbers_eq_nil]
    obtain ⟨⟨_, fragment⟩, _⟩ := s
    cases fragment <;> simp [hasPendingOutput]
  unfold finishSlice
  split
  next hlength =>
    split
    next hindex => exact .inl ⟨hlength, hindex, rfl⟩
    rename_i hindex
    split
    next hdone => exact .inr (.inl ⟨hlength, not_lt.mp hindex, hpending.mp hdone.2, rfl⟩)
    next hdone =>
      refine .inr (.inr ⟨.inr ⟨not_lt.mp hindex, ?_⟩, rfl⟩)
      exact fun hnone => hdone ⟨hreplaying, hpending.mpr hnone⟩
  next hlength => exact .inr (.inr ⟨.inl (not_le.mp hlength), rfl⟩)

/-- The turn of a replay: a part of an event, the end where no file is left, or a slice. -/
theorem Replays.serve_cases (h : s.Replays codec directory) (hostToday : String) :
    (∃ fragment queue, s.Emits (.fragment fragment) queue ∧ s.serve codec directory hostToday =
          ([.journalFragment s.subscriptionId fragment],
            some { s with
              toFragmentQueue := queue
              throughSeq := if fragment.finalFragment then some fragment.seq
                else s.throughSeq })) ∨
      (s.numbers = [] ∧ s.files[s.fileIndex]? = none ∧
        s.serve codec directory hostToday = (s.markCaughtUp.1, some s.markCaughtUp.2)) ∨
      ∃ path items reader, s.numbers = [] ∧ s.files[s.fileIndex]? = some path ∧
        s.Slice codec directory path items reader ∧
        let taken := { s with reader := some reader }.takeItems items
        let finished := taken.2.finishSlice (contentOf directory path).length reader
        s.serve codec directory hostToday = (taken.1 ++ finished.1, some finished.2) := by
  rcases emitOneFragment_cases h.whole with ⟨hnumbers, hemit⟩ | ⟨fragment, queue, hemits, hemit⟩
  · right
    cases hpath : s.files[s.fileIndex]? with
    | none =>
      refine .inl ⟨hnumbers, rfl, ?_⟩
      simp only [serve, hemit, h.replaying, Bool.false_eq_true, if_false, h.refreshFiles, hpath,
        nil_append]
    | some path =>
      refine .inr ⟨path, _, _, hnumbers, rfl, rfl, ?_⟩
      have hmem : path ∈ directory := by
        have hpath := mem_of_getElem? hpath
        rw [h.files, journalFiles, mem_insertionSort, mem_filter] at hpath
        exact AList.mem_keys.mpr hpath.1
      obtain ⟨contents, hcontents⟩ := isSome_iff_exists.mp (AList.lookup_isSome.mpr hmem)
      have hcontent : contentOf directory path = contents := by rw [contentOf, hcontents, getD_some]
      have hroom : ¬ contents.length < s.currentReader.nextOffset := by
        have hle := (h.reading path hpath).le
        rw [hcontent] at hle
        exact not_lt.mpr hle
      simp only [serve, hemit, h.replaying, Bool.false_eq_true, if_false, h.refreshFiles, hpath,
        nil_append, readSlice, hcontents, hcontent]
      exact if_neg hroom
  · refine .inl ⟨fragment, queue, hemits, ?_⟩
    simp only [serve, hemit]

/-! ## The last event of the journal -/

/-- An event that is wanted and does not come too late is queued. -/
theorem takeItem_event {offset line : Nat} {bytes : Bytes}
    (hfirst : ∀ first ∈ s.fromSeq, first ≤ seq)
    (hexpected : ∀ expected ∈ s.expectedSnapshotSeq, expected ≤ seq) :
    (s.takeItem (.event seq offset line bytes)).2 = s.push seq bytes := by
  have hwanted : (s.fromSeq.all fun first => first ≤ seq) = true := by
    cases hfrom : s.fromSeq with
    | none => rfl
    | some first => simpa using hfirst first hfrom
  simp only [takeItem, hwanted, if_true]
  split
  next expected heq =>
    have hle := hexpected expected heq
    rw [if_neg (not_lt.mpr hle)]
    split <;> rfl
  · rfl

/-- Items that end before the last event do not get in its way; the event itself is queued, and
nothing is queued behind it. -/
theorem takeItems_last {items rest : List JournalReadItem}
    (hordered : (itemNumbers (items ++ rest)).Pairwise (· < ·))
    (hlast : ((itemEvents (items ++ rest)).map Prod.fst).getLast? = some last)
    (hfirst : ∀ first ∈ s.fromSeq, first ≤ last)
    (hexpected : ∀ expected ∈ s.expectedSnapshotSeq, expected ≤ last) :
    (last ∈ (itemEvents rest).map Prod.fst ∧
        ∀ expected ∈ (s.takeItems items).2.expectedSnapshotSeq, expected ≤ last) ∨
      itemEvents rest = [] ∧ (s.takeItems items).2.numbers.getLast? = some last := by
  induction items generalizing s with
  | nil => exact .inl ⟨mem_of_getLast? hlast, hexpected⟩
  | cons item items ih =>
    rw [cons_append] at hordered hlast
    rw [itemEvents_cons, map_append] at hlast
    by_cases hrest : itemEvents (items ++ rest) = []
    · -- This item is the last event, and the others queue nothing.
      rw [hrest, map_nil, append_nil] at hlast
      obtain ⟨hitems, hafter⟩ : itemEvents items = [] ∧ itemEvents rest = [] := by
        rwa [itemEvents_append, append_eq_nil_iff] at hrest
      cases item with
      | event seq _ _ bytes =>
        obtain rfl : seq = last := by simpa [JournalReadItem.delivered] using hlast
        obtain ⟨_, _, hothers, hevents, -⟩ := (s.push seq bytes).takeItems_spec items
        rw [hitems, sublist_nil] at hevents
        subst hevents
        refine .inr ⟨hafter, ?_⟩
        rw [takeItems, takeItem_event hfirst hexpected, hothers]
        simp [numbers, push]
      | unreadable | oversized => cases hlast
    · have hlast' : ((itemEvents (items ++ rest)).map Prod.fst).getLast? = some last := by
        rwa [getLast?_append_of_ne_nil _ (by simpa using hrest)] at hlast
      obtain ⟨expected, _, hitem, -, -, hnext⟩ := s.takeItem_spec item
      rw [itemNumbers_cons, pairwise_append] at hordered
      have hearlier : ∀ n ∈ item.number, n < last := fun n hn =>
        hordered.2.2 n (by simpa using hn) last
          ((itemEvents_sublist _).subset (mem_of_getLast? hlast'))
      apply ih hordered.2.1 hlast'
      · rw [hitem]
        exact hfirst
      rw [hitem]
      rcases hnext with rfl | ⟨n, hn, rfl⟩
      · exact hexpected
      intro expected hsucc
      have hle : expected = n + 1 := by
        simp only [checkedSucc, asU64, mem_def, filter_eq_some_iff, some.injEq] at hsucc
        exact hsucc.1.symm
      have hless := hearlier n hn
      omega

theorem Due.takeItems {items rest : List JournalReadItem}
    (h : s.Due (items ++ rest) last) (hordered : (itemNumbers (items ++ rest)).Pairwise (· < ·))
    (hlast : last ∈ (itemEvents (items ++ rest)).map Prod.fst →
      ((itemEvents (items ++ rest)).map Prod.fst).getLast? = some last)
    (hfirst : ∀ first ∈ s.fromSeq, first ≤ last) : (s.takeItems items).2.Due rest last := by
  rcases h with ⟨hmem, hexpected⟩ | ⟨hnone, hqueued⟩
  · exact (takeItems_last hordered (hlast hmem) hfirst hexpected).imp_right
      fun ⟨hrest, hqueued⟩ => ⟨hrest, .inl hqueued⟩
  rw [itemEvents_append, append_eq_nil_iff] at hnone
  obtain ⟨_, _, htaken, hevents, -⟩ := s.takeItems_spec items
  rw [hnone.1, sublist_nil] at hevents
  subst hevents
  refine .inr ⟨hnone.2, ?_⟩
  rw [htaken]
  simpa only [append_nil] using hqueued

/-- A part of the last event that was queued, or of one before it. -/
theorem Due.emit {unread : List JournalReadItem} (h : s.Due unread last)
    (hnumbers : s.numbers = seq :: rest)
    (hqueue : queue.numbers = if final then rest else s.numbers) :
    Due { s with
      toFragmentQueue := queue
      throughSeq := if final then some seq else s.throughSeq } unread last := by
  refine h.imp_right ?_
  rintro ⟨hread, hlast | ⟨hnone, -⟩⟩
  · refine ⟨hread, ?_⟩
    cases final with
    | false => exact .inl (hqueue ▸ hlast)
    | true =>
      rw [hnumbers] at hlast
      cases rest with
      | nil => exact .inr ⟨hqueue, by simpa using hlast⟩
      | cons =>
        left
        rwa [hqueue, if_pos rfl, ← getLast?_cons_cons]
  · rw [hnone] at hnumbers
    cases hnumbers

/-! ## A turn -/

theorem unreadItems_suffix (paths : List String) (index offset : Nat) :
    unreadItems codec directory (paths.drop index) offset <:+
      paths.flatMap fun path => parseAll codec (contentOf directory path) := by
  rw [← take_append_drop index paths, flatMap_append, take_append_drop]
  refine IsSuffix.trans ?_ (suffix_append _ _)
  cases paths.drop index with
  | nil => exact suffix_refl _
  | cons path =>
    obtain ⟨before, hbefore⟩ :=
      drop_suffix (parseAll codec ((contentOf directory path).take offset)).length
        (parseAll codec (contentOf directory path))
    refine ⟨before, ?_⟩
    rw [unreadItems, restItems, ← append_assoc, hbefore, flatMap_cons]

theorem Replays.unread_suffix (h : s.Replays codec directory) :
    s.unread codec directory <:+ journalItems codec directory := by
  rw [unread, journalItems, h.files]
  exact unreadItems_suffix _ _ _

theorem drop_fileIndex (hpath : s.files[s.fileIndex]? = some path) :
    s.files.drop s.fileIndex = path :: s.files.drop (s.fileIndex + 1) := by
  obtain ⟨hlt, rfl⟩ := List.getElem?_eq_some_iff.mp hpath
  exact drop_eq_getElem_cons hlt

structure Settled (codec : JournalCodec Value) (directory : Directory) (s : RelaySubscription) :
    Prop where
  live : s.caughtUp = true
  idle : s.numbers = []
  through : ∀ n ∈ s.throughSeq, n ∈ deliverable codec directory

section

variable (h : s.Replays codec directory)

include h

theorem Replays.emit {fragment : Fragment} (hemits : s.Emits (.fragment fragment) queue) :
    let next := { s with
      toFragmentQueue := queue
      throughSeq := if fragment.finalFragment then some fragment.seq else s.throughSeq }
    next.Replays codec directory ∧
      next.remaining codec directory < s.remaining codec directory := by
  intro next
  cases hemits with | fragment hnumbers hqueue hunsent hwhole
  refine ⟨⟨h.replaying, h.window, h.files, h.reading, hwhole h.whole, ?_, ?_, ?_⟩, ?_⟩
  · intro n hn
    apply h.queued
    rw [hqueue] at hn
    split at hn
    · rw [hnumbers]
      exact mem_cons_of_mem _ hn
    · exact hn
  · intro n hn
    change n ∈ (if fragment.finalFragment then some fragment.seq else s.throughSeq) at hn
    split at hn
    · cases hn
      apply h.queued
      rw [hnumbers]
      exact mem_cons_self
    · exact h.through n hn
  · exact fun last hlast hfirst => (h.due last hlast hfirst).emit hnumbers hqueue
  · have hreplaying : next.caughtUp = false := h.replaying
    have hunread : next.unread codec directory = s.unread codec directory := rfl
    have hnext : next.unsent = queue.unsent := rfl
    simp only [remaining, h.replaying, hreplaying, Bool.false_eq_true, if_false, hunread, hnext]
    exact Nat.succ_lt_succ (Nat.add_lt_add_left hunsent _)

/-- Nothing is left of a file whose end has been reached. -/
theorem Replays.unread_of_end (hpath : s.files[s.fileIndex]? = some path)
    (hend : (contentOf directory path).length ≤ s.currentReader.nextOffset) :
    s.unread codec directory = unreadItems codec directory (s.files.drop (s.fileIndex + 1)) 0 := by
  have hoffset : s.currentReader.nextOffset = (contentOf directory path).length :=
    ((h.reading path hpath).le).antisymm hend
  rw [unread, drop_fileIndex hpath, unreadItems, hoffset, restItems_length, nil_append,
    unreadItems_zero]

theorem Replays.nextFile (hpath : s.files[s.fileIndex]? = some path)
    (hend : (contentOf directory path).length ≤ s.currentReader.nextOffset) :
    let next := { s with reader := none, fileIndex := s.fileIndex + 1 }
    next.Replays codec directory ∧
      next.remaining codec directory < s.remaining codec directory := by
  intro next
  have hunread : next.unread codec directory = s.unread codec directory :=
    (h.unread_of_end hpath hend).symm
  refine ⟨{ h with reading := ?_, due := ?_ }, ?_⟩
  · exact fun _ _ => IncrementalJournalReader.reads_new _
  · rw [hunread]
    exact h.due
  have hbytes : unreadBytes directory (next.files.drop next.fileIndex)
      next.currentReader.nextOffset <
        unreadBytes directory (s.files.drop s.fileIndex) s.currentReader.nextOffset := by
    change unreadBytes directory (s.files.drop (s.fileIndex + 1)) 0 < _
    rw [drop_fileIndex hpath, unreadBytes_zero, unreadBytes]
    omega
  have hreplaying : next.caughtUp = false := h.replaying
  have hunsent : next.unsent = s.unsent := rfl
  simp only [remaining, h.replaying, hreplaying, Bool.false_eq_true, if_false, hunread, hunsent]
  omega

/-- A replay that has come to the end of its files has sent the last event. -/
theorem Replays.settled (hnumbers : s.numbers = []) (hdone : s.unread codec directory = []) :
    s.markCaughtUp.2.Settled codec directory ∧
      ∀ last, (deliverable codec directory).getLast? = some last →
        (∀ first ∈ s.fromSeq, first ≤ last) → s.throughSeq = some last := by
  refine ⟨⟨rfl, hnumbers, h.through⟩, ?_⟩
  intro last hlast hfirst
  have hdue := h.due last hlast hfirst
  rw [hdone] at hdue
  rcases hdue with ⟨hmem, -⟩ | ⟨-, hlast | ⟨-, hthrough⟩⟩
  · cases hmem
  · rw [hnumbers] at hlast
    cases hlast
  · exact hthrough

end

section

variable (hshows : codec.Shows)
  (hordered : (itemNumbers (journalItems codec directory)).Pairwise (· < ·))

include hshows hordered

/-- A slice leaves a replay that has less before it. -/
theorem Replays.takeSlice {items : List JournalReadItem} {reader : IncrementalJournalReader}
    (h : s.Replays codec directory) (hpath : s.files[s.fileIndex]? = some path)
    (hnumbers : s.numbers = []) (hslice : s.Slice codec directory path items reader) :
    ∃ sent next, { s with reader := some reader }.takeItems items = (sent, next) ∧
      next.Replays codec directory ∧ next.files[next.fileIndex]? = some path ∧
      next.currentReader = reader ∧ next.liveFloor = s.liveFloor ∧ next.fromSeq = s.fromSeq ∧
      sent.length + next.remaining codec directory +
          (reader.nextOffset - s.currentReader.nextOffset) ≤ s.remaining codec directory ∧
      (reader.nextOffset < (contentOf directory path).length ∨ next.numbers ≠ [] →
        s.currentReader.nextOffset < reader.nextOffset) := by
  obtain ⟨hreads, hoffset, hrest⟩ :=
    @IncrementalJournalReader.Reads.readChunk _ codec _ _ (h.reading path hpath)
      attachRelayReadBytes
  rw [hslice] at hreads hoffset hrest
  dsimp only at hreads hoffset hrest
  obtain ⟨expected, events, htaken, hevents, hsent⟩ :=
    { s with reader := some reader }.takeItems_spec items
  have hqueue := numbers_eq_nil.mp hnumbers
  have hfragment : s.pendingFragment = none := congrArg pendingFragment hqueue
  have hpending : s.pendingEvents = [] := congrArg pendingEvents hqueue
  rw [hpending, nil_append] at htaken
  obtain ⟨sent, hsentItems⟩ : ∃ sent, sent = ({ s with reader := some reader }.takeItems items).1 :=
    ⟨_, rfl⟩
  rw [← hsentItems] at hsent
  let next := { s with
    reader := some reader, expectedSnapshotSeq := expected, pendingEvents := events }
  have hunread : s.unread codec directory = items ++ next.unread codec directory := by
    change unreadItems codec directory (s.files.drop s.fileIndex) _ =
      items ++ unreadItems codec directory (s.files.drop s.fileIndex) reader.nextOffset
    rw [drop_fileIndex hpath, unreadItems, unreadItems, hrest, append_assoc]
  have hnumbers' : next.numbers = events.map Prod.fst := by simp [next, numbers, hfragment]
  have hitems : items ⊆ parseAll codec (contentOf directory path) := by
    intro _ hitem
    rw [@parseAll_take _ codec _ s.currentReader.nextOffset, hrest]
    exact mem_append_right _ (mem_append_left _ hitem)
  obtain ⟨_, hbefore⟩ := h.unread_suffix
  rw [hunread] at hbefore
  refine ⟨sent, next, Prod.ext hsentItems.symm htaken, ⟨h.replaying, h.window, h.files, ?_,
    ⟨?_, by simp [next, hfragment]⟩, ?_, h.through, ?_⟩, hpath, rfl, rfl, rfl, ?_, ?_⟩
  · intro _ hother
    cases hpath.symm.trans hother
    exact hreads
  · intro event hevent
    exact itemEvents_ne_nil hshows (filterMap_subset _ hitems (hevents.subset hevent))
  · rw [hnumbers']
    intro n hn
    have hmem : n ∈ (itemEvents items).map Prod.fst := (hevents.map Prod.fst).subset hn
    rw [deliverable, ← hbefore]
    simp only [itemEvents_append, map_append, mem_append]
    exact .inr (.inl hmem)
  · intro last hlast hfirst
    have hdue := h.due last hlast hfirst
    rw [hunread] at hdue
    have hnow := hdue.takeItems (s := { s with reader := some reader }) ?_ ?_ hfirst
    · rwa [htaken] at hnow
    · rw [← hbefore, itemNumbers_append, pairwise_append] at hordered
      exact hordered.2.1
    · intro hmem
      rwa [deliverable, ← hbefore, itemEvents_append, map_append,
        getLast?_append_of_ne_nil _ (ne_nil_of_mem hmem)] at hlast
  · have hcost : itemsCost (s.unread codec directory) =
        itemsCost items + itemsCost (next.unread codec directory) := by
      simp only [hunread, itemsCost, itemEvents_append, map_append, sum_append, length_append]
      omega
    have hbytes : unreadBytes directory (s.files.drop s.fileIndex) s.currentReader.nextOffset =
        unreadBytes directory (s.files.drop s.fileIndex) reader.nextOffset +
          (reader.nextOffset - s.currentReader.nextOffset) := by
      simp only [drop_fileIndex hpath, unreadBytes]
      omega
    have hunsent : next.unsent ≤ ((itemEvents items).map fun event => event.2.length).sum := by
      simp only [next, unsent, hfragment, elim_none, Nat.zero_add]
      exact (hevents.map _).sum_le_sum (by simp)
    have hnext : next.remaining codec directory = itemsCost (next.unread codec directory) +
        unreadBytes directory (s.files.drop s.fileIndex) reader.nextOffset + next.unsent + 1 :=
      if_neg (by simp [next, h.replaying])
    rw [hnext, remaining, if_neg (by simp [h.replaying])]
    unfold itemsCost at hcost ⊢
    omega
  · -- A slice of no bytes stands at the end of the file and has no items.
    intro hmore
    by_contra hstill
    unfold attachRelayReadBytes at hoffset
    have hle := (h.reading path hpath).le
    rcases hmore with hbefore | hsome
    · omega
    apply hsome
    have hend : s.currentReader.nextOffset = (contentOf directory path).length := by omega
    rw [hend, restItems_length] at hrest
    rw [(append_eq_nil_iff.mp hrest.symm).1] at hevents
    rw [hnumbers', sublist_nil.mp hevents, map_nil]

structure Nearer (codec : JournalCodec Value) (directory : Directory)
    (s next : RelaySubscription) : Prop where
  less : next.remaining codec directory < s.remaining codec directory
  liveFloor : next.liveFloor = s.liveFloor
  fromSeq : next.fromSeq = s.fromSeq
  ends : next.Replays codec directory ∨ next.Settled codec directory ∧
    ∀ last, (deliverable codec directory).getLast? = some last →
      (∀ first ∈ s.fromSeq, first ≤ last) → next.throughSeq = some last

/-- Every turn of a replay brings it nearer to its end. -/
theorem Replays.serve (h : s.Replays codec directory) (hostToday : String) :
    ∃ sent next, s.serve codec directory hostToday = (sent, some next) ∧
      sent.length + next.remaining codec directory ≤ s.remaining codec directory ∧
      Nearer codec directory s next := by
  have hlive : ∀ s : RelaySubscription, s.caughtUp = true → s.remaining codec directory = 0 :=
    fun s hlive => by rw [remaining, if_pos hlive]
  have hleft : 0 < s.remaining codec directory := by simp [remaining, h.replaying]
  -- a fragment, the end of the files, or a slice of the current one
  rcases h.serve_cases hostToday with
    ⟨fragment, queue, hemits, hserve⟩ | ⟨hnumbers, hpath, hserve⟩ |
    ⟨path, _, reader, hnumbers, hpath, hread, hserve⟩
  · obtain ⟨hnext, hless⟩ := h.emit hemits
    refine ⟨_, _, hserve, ?_, hless, rfl, rfl, .inl hnext⟩
    rw [length_singleton]
    omega
  · have hdone : s.unread codec directory = [] := by
      rw [unread, drop_eq_nil_of_le (getElem?_eq_none_iff.mp hpath), unreadItems]
    exact ⟨_, _, hserve, hleft, hleft, rfl, rfl, .inr (h.settled hnumbers hdone)⟩
  · obtain ⟨sent, next, htaken, hslice, hpath, rfl, hfloor, hfrom, hless, hmoved⟩ :=
      h.takeSlice hshows hordered hpath hnumbers hread
    rw [htaken] at hserve
    dsimp only at hserve
    rcases @finishSlice_cases next (contentOf directory path).length next.currentReader
      hslice.replaying with
      ⟨hend, -, hfinish⟩ | ⟨hend, hlast, hidle, hfinish⟩ | ⟨hmore, hfinish⟩
    · rw [hfinish, append_nil] at hserve
      dsimp only at hserve
      obtain ⟨hnext, _⟩ := hslice.nextFile hpath hend
      refine ⟨_, _, hserve, ?_, ?_, hfloor, hfrom, .inl hnext⟩ <;> omega
    · rw [hfinish] at hserve
      have hdone := hslice.unread_of_end hpath hend
      rw [drop_eq_nil_of_le hlast, unreadItems] at hdone
      refine ⟨_, _, hserve, ?_, hleft, hfloor, hfrom, .inr (hfrom ▸ hslice.settled hidle hdone)⟩
      rw [remaining, if_neg (by simp [hslice.replaying])] at hless
      rw [hlive _ rfl, length_append]
      simp only [markCaughtUp, length_singleton]
      omega
    · rw [hfinish, append_nil] at hserve
      dsimp only at hserve
      have hmoved := hmoved (hmore.imp_right And.right)
      refine ⟨_, _, hserve, ?_, ?_, hfloor, hfrom, .inl hslice⟩ <;> omega

end

theorem restartFromSeq_replays (hthrough : ∀ n ∈ s.throughSeq, n ∈ deliverable codec directory)
    (hostToday : String) (fromSeq : Nat) :
    (s.restartFromSeq codec directory hostToday fromSeq).Replays codec directory where
  replaying := rfl
  window := ⟨fromSeq, rfl⟩
  files := rfl
  reading := fun _ _ => IncrementalJournalReader.reads_new _
  whole := whole_empty
  queued := nofun
  through := hthrough
  due := by
    intro _ hlast hfirst
    refine .inl ⟨?_, ?_⟩
    · rw [unread]
      exact (unreadItems_zero codec directory (journalFiles directory)).symm ▸
        mem_of_getLast? hlast
    intro expected hexpected
    change expected ∈ (if 0 < fromSeq then some fromSeq else none) at hexpected
    split at hexpected
    · cases hexpected
      exact hfirst _ rfl
    · cases hexpected

theorem Settled.serve (h : s.Settled codec directory) (hostToday : String) :
    s.serve codec directory hostToday = ([], some s) := by
  have hwhole : s.Whole := numbers_eq_nil.mp h.idle ▸ whole_empty
  rcases emitOneFragment_cases hwhole with ⟨-, hemit⟩ | ⟨_, _, hemits, -⟩
  · simp only [RelaySubscription.serve, hemit, h.live, if_true]
  · cases hemits with | fragment hnumbers
    rw [h.idle] at hnumbers
    cases hnumbers

end RelaySubscription

end Bridget.Attach
