import Bridget.Journal.Session

/-!
# The live feed of the journal

Entries that were written go to a bounded channel, from which one relay takes them. What does
not fit is dropped, and a counter tells up to which number entries may be missing. The
publisher and the consumer share four cells and take turns on them in any order; the calls
are given both as a whole and step by step.
-/

namespace Bridget.Journal

open Foundation

structure JournalLiveEvent where
  seq : Nat
  bytes : Bytes
  deriving DecidableEq

structure JournalLiveBatch where
  gap : Option (Nat × Nat)
  events : List JournalLiveEvent

structure JournalLiveFeed where
  (capacityBytes latestSeq queuedBytes droppedThrough : Nat)
  channel : List JournalLiveEvent
  deriving DecidableEq

def writerQueueCapacity : Nat := 256

def liveFeedCapacityBytes : Nat := 4 * 1024 * 1024

namespace JournalLiveFeed

def new (capacityBytes : Nat) : JournalLiveFeed := ⟨capacityBytes, 0, 0, 0, []⟩

/-! ## The atomic operations -/

variable (feed : JournalLiveFeed)

def raiseLatest (seq : Nat) : JournalLiveFeed := { feed with latestSeq := max feed.latestSeq seq }

def reserve (length : Nat) : Option JournalLiveFeed :=
  if feed.queuedBytes + length ≤ feed.capacityBytes then
    some { feed with queuedBytes := feed.queuedBytes + length }
  else none

def release (length : Nat) : JournalLiveFeed :=
  { feed with queuedBytes := feed.queuedBytes - length }

def raiseDropped (seq : Nat) : JournalLiveFeed :=
  { feed with droppedThrough := max feed.droppedThrough seq }

def trySend (event : JournalLiveEvent) : Option JournalLiveFeed :=
  if feed.channel.length < writerQueueCapacity then
    some { feed with channel := feed.channel ++ [event] }
  else none

/-! ## The calls as a whole -/

def publish (event : JournalLiveEvent) : JournalLiveFeed :=
  let feed := feed.raiseLatest event.seq
  match feed.reserve event.bytes.length with
  | none => feed.raiseDropped event.seq
  | some feed =>
    match feed.trySend event with
    | some feed => feed
    | none =>
      let feed := feed.release event.bytes.length
      feed.raiseDropped feed.latestSeq

/-- The method `latest_seq`: nothing before the first publication. -/
def latest : Option Nat := if 0 < feed.latestSeq then some feed.latestSeq else none

variable (cursor : Option Nat)

def expected : Nat := cursor.elim 1 fun seq => min u64Max (seq + 1)

def gapAfter (dropped : Nat) : Option (Nat × Nat) :=
  if expected cursor ≤ dropped then some (expected cursor, dropped) else none

def isNew (event : JournalLiveEvent) : Bool := cursor.all fun seq => seq < event.seq

/-- The consumer takes out everything that is queued. -/
def drain : List JournalLiveEvent → JournalLiveFeed → JournalLiveFeed
  | [], feed => feed
  | event :: rest, feed => drain rest ({ feed with channel := rest }.release event.bytes.length)

def after (cursor : Option Nat) : JournalLiveBatch × JournalLiveFeed :=
  (⟨gapAfter cursor feed.droppedThrough, feed.channel.filter (isNew cursor)⟩,
    drain feed.channel feed)

variable {feed} {event : JournalLiveEvent} {dropped : Nat}

theorem publish_long {feed : JournalLiveFeed} (h : feed.capacityBytes < event.bytes.length) :
    feed.publish event = (feed.raiseLatest event.seq).raiseDropped event.seq := by
  have hfull : (feed.raiseLatest event.seq).reserve event.bytes.length = none := by
    apply if_neg
    simp only [raiseLatest]
    omega
  simp only [publish, hfull]

theorem drain_spec {events : List JournalLiveEvent} (h : feed.channel = events) :
    (drain events feed).channel = [] ∧ (drain events feed).latestSeq = feed.latestSeq ∧
      (drain events feed).droppedThrough = feed.droppedThrough := by
  induction events generalizing feed with
  | nil => exact ⟨h, rfl, rfl⟩
  | cons event rest ih =>
    obtain ⟨hchannel, hlatest, hdropped⟩ :=
      @ih ({ feed with channel := rest }.release event.bytes.length) rfl
    exact ⟨hchannel, hlatest, hdropped⟩

@[simp] theorem after_channel (cursor : Option Nat) : (feed.after cursor).2.channel = [] :=
  (drain_spec rfl).1

@[simp] theorem after_droppedThrough (cursor : Option Nat) :
    (feed.after cursor).2.droppedThrough = feed.droppedThrough :=
  (drain_spec rfl).2.2

theorem gapAfter_eq_none {cursor : Option Nat} :
    gapAfter cursor dropped = none ↔ dropped < expected cursor := by
  unfold gapAfter
  split
  next h => simp [not_lt.mpr h]
  next h => simp [not_le.mp h]

theorem expected_mono {c c' : Nat} (h : c ≤ c') : expected (some c) ≤ expected (some c') :=
  min_le_min_left _ (Nat.succ_le_succ h)

/-- What is new to a cursor is at least what it expects. -/
theorem expected_le_of_isNew {cursor : Option Nat}
    (h : isNew cursor event = true) : expected cursor ≤ expected (some event.seq) := by
  cases cursor with
  | none =>
    simp only [expected, Option.elim_none, Option.elim_some, u64Max]
    omega
  | some => exact expected_mono (le_of_lt (by simpa [isNew] using h))

end JournalLiveFeed

/-! ## The calls step by step -/

open JournalLiveFeed

inductive Publisher where
  | idle
  | reserving (event : JournalLiveEvent)
  | sending (event : JournalLiveEvent)
  | releasing (event : JournalLiveEvent)
  | reloading (event : JournalLiveEvent)
  | marking (event : JournalLiveEvent) (through : Nat)
  deriving DecidableEq

/-- Where the consumer is: between two calls, in one that has read `dropped_through` and
received some events, or reading what a gap has taken from it. -/
inductive Consumer where
  | idle
  | draining (dropped : Nat) (events : List JournalLiveEvent)
  | received (dropped : Nat) (events : List JournalLiveEvent) (event : JournalLiveEvent)
  | rereading (through : Nat)
  deriving DecidableEq

/-- The cells, the two parties, and what the consumer has been told so far. -/
structure FeedState where
  feed : JournalLiveFeed
  nextSeq : Nat
  publisher : Publisher
  cursor : Option Nat
  consumer : Consumer
  /-- The last number that was taken out of the channel. -/
  taken : Nat
  returned : List Nat
  gaps : List (Nat × Nat)
  /-- What was read elsewhere past the end of a gap. -/
  reread : List (Nat × Nat)

def FeedState.start (capacityBytes first : Nat) (cursor : Option Nat) : FeedState :=
  { feed := .new capacityBytes
    nextSeq := first
    publisher := .idle
    cursor
    consumer := .idle
    taken := 0
    returned := []
    gaps := []
    reread := [] }

namespace FeedState

variable (s : FeedState)

def publisherStep : FeedState :=
  match s.publisher with
  | .idle => s
  | .reserving event =>
    match s.feed.reserve event.bytes.length with
    | some feed => { s with feed, publisher := .sending event }
    | none => { s with publisher := .marking event event.seq }
  | .sending event =>
    match s.feed.trySend event with
    | some feed => { s with feed, publisher := .idle }
    | none => { s with publisher := .releasing event }
  | .releasing event =>
    { s with feed := s.feed.release event.bytes.length, publisher := .reloading event }
  | .reloading event => { s with publisher := .marking event s.feed.latestSeq }
  | .marking _ through => { s with feed := s.feed.raiseDropped through, publisher := .idle }

/-- The end of `after`, and what the consumer makes of the batch. -/
def finishCall (dropped : Nat) (events : List JournalLiveEvent) : FeedState :=
  let s := { s with returned := s.returned ++ events.map JournalLiveEvent.seq }
  match gapAfter s.cursor dropped with
  | some gap => { s with gaps := s.gaps ++ [gap], consumer := .rereading gap.2 }
  | none =>
    { s with
      cursor := (events.getLast?.map JournalLiveEvent.seq).or s.cursor
      consumer := .idle }

def consumerStep : FeedState :=
  match s.consumer with
  | .idle => { s with consumer := .draining s.feed.droppedThrough [] }
  | .draining dropped events =>
    match s.feed.channel with
    | [] => s.finishCall dropped events
    | event :: rest =>
      { s with
        feed := { s.feed with channel := rest }
        taken := event.seq
        consumer := .received dropped events event }
  | .received dropped events event =>
    { s with
      feed := s.feed.release event.bytes.length
      consumer := .draining dropped
        (if isNew s.cursor event then events ++ [event] else events) }
  | .rereading _ => s

end FeedState

inductive FeedLabel where
  /-- The next entry is handed to `publish`, up to its first atomic step. -/
  | publish (bytes : Bytes)
  | publisher
  | consumer
  /-- The consumer has read elsewhere what was missing and goes on from a new cursor. -/
  | resume (cursor : Nat)

def FeedState.step (s : FeedState) : FeedLabel → FeedState
  | .publish bytes =>
    if s.publisher = .idle then
      { s with
        feed := s.feed.raiseLatest s.nextSeq
        nextSeq := s.nextSeq + 1
        publisher := .reserving ⟨s.nextSeq, bytes⟩ }
    else s
  | .publisher => s.publisherStep
  | .consumer => s.consumerStep
  | .resume cursor =>
    match s.consumer with
    | .rereading through =>
      if through ≤ cursor then
        { s with
          cursor := some cursor
          consumer := .idle
          reread := s.reread ++ [(through + 1, cursor)] }
      else s
    | _ => s

/-! ## The steps make up the calls -/

namespace FeedState

variable {s : FeedState}

/-- The publisher, left alone, does what `publish` does. -/
theorem publish_eq_steps (hidle : s.publisher = .idle) (bytes : Bytes) :
    ∃ n, (publisherStep^[n] (s.step (.publish bytes))).feed = s.feed.publish ⟨s.nextSeq, bytes⟩ ∧
      (publisherStep^[n] (s.step (.publish bytes))).publisher = .idle := by
  unfold JournalLiveFeed.publish
  simp only [step, hidle, if_true]
  cases hreserve : (s.feed.raiseLatest s.nextSeq).reserve bytes.length with
  | none => exact ⟨2, by simp [publisherStep, hreserve], by simp [publisherStep, hreserve]⟩
  | some feed =>
    cases hsend : feed.trySend ⟨s.nextSeq, bytes⟩ with
    | some =>
      exact ⟨2, by simp [publisherStep, hreserve, hsend], by simp [publisherStep, hreserve, hsend]⟩
    | none =>
      exact ⟨5, by simp [publisherStep, hreserve, hsend], by simp [publisherStep, hreserve, hsend]⟩

/-- What the rest of a drain does. -/
theorem drain_eq_steps {dropped : Nat} {events : List JournalLiveEvent}
    (hdraining : s.consumer = .draining dropped events) :
    ∃ n, consumerStep^[n] s = finishCall
      { s with
        feed := drain s.feed.channel s.feed
        taken := (s.feed.channel.getLast?.map JournalLiveEvent.seq).getD s.taken }
      dropped (events ++ s.feed.channel.filter (isNew s.cursor)) := by
  generalize hchannel : s.feed.channel = channel
  induction channel generalizing s events with
  | nil =>
    have hreturn : consumerStep s = s.finishCall dropped events := by
      simp [consumerStep, hdraining, hchannel]
    exact ⟨1, by simpa [drain] using hreturn⟩
  | cons event rest ih =>
    have htwo : consumerStep (consumerStep s) =
        { s with
          feed := { s.feed with channel := rest }.release event.bytes.length
          taken := event.seq
          consumer := .draining dropped
            (if isNew s.cursor event then events ++ [event] else events) } := by
      simp [consumerStep, hdraining, hchannel]
    obtain ⟨n, hn⟩ := @ih (consumerStep (consumerStep s))
      (if isNew s.cursor event then events ++ [event] else events) (by rw [htwo])
      (by rw [htwo]; rfl)
    refine ⟨n + 2, ?_⟩
    change consumerStep^[n] (consumerStep (consumerStep s)) = _
    rw [hn, htwo]
    have htaken : (rest.getLast?.map JournalLiveEvent.seq).getD event.seq =
        ((event :: rest).getLast?.map JournalLiveEvent.seq).getD s.taken := by
      rw [List.getLast?_cons]
      cases rest.getLast? <;> rfl
    have hevents : (if isNew s.cursor event then events ++ [event] else events) ++
        rest.filter (isNew s.cursor) = events ++ (event :: rest).filter (isNew s.cursor) := by
      by_cases hnew : isNew s.cursor event = true <;> simp [hnew]
    rw [← hevents, ← htaken]
    rfl

/-- The consumer, left alone, returns what `after` returns. -/
theorem after_eq_steps (hidle : s.consumer = .idle) :
    ∃ n, consumerStep^[n] s = finishCall
      { s with
        feed := (s.feed.after s.cursor).2
        taken := (s.feed.channel.getLast?.map JournalLiveEvent.seq).getD s.taken }
      s.feed.droppedThrough (s.feed.after s.cursor).1.events := by
  have hload : consumerStep s = { s with consumer := .draining s.feed.droppedThrough [] } := by
    simp [consumerStep, hidle]
  obtain ⟨n, hn⟩ := @drain_eq_steps (consumerStep s) s.feed.droppedThrough [] (by rw [hload])
  refine ⟨n + 1, ?_⟩
  change consumerStep^[n] (consumerStep s) = _
  rw [hn, hload]
  rfl

/-- One event in the channel. -/
theorem queued_event_is_returned : ∃ n,
    (consumerStep^[n] { start 8 1 none with feed.channel := [⟨1, [0]⟩] }).returned = [1] :=
  (after_eq_steps rfl).imp fun _ h => congrArg FeedState.returned h

end FeedState

end Bridget.Journal
