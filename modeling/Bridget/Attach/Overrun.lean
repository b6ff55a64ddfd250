import Bridget.Attach.Quiet

/-!
# A gap that is told once

A line that is too long is dropped from the live feed and cannot be replayed either. When
nothing that a view can show comes after it, every cursor that is chosen anew is behind what was
dropped, and the gap is found again.
-/

namespace Bridget.Attach

open Foundation Journal JournalLiveFeed List JournalEntry

variable {Value : Type} {codec : JournalCodec Value} {directory : Directory}

/-- Day files of whole entries whose numbers increase from file to file. -/
structure Recorded (codec : JournalCodec Value) (directory : Directory)
    (days : List (List (JournalEntry Value))) : Prop where
  files : (journalFiles directory).map (contentOf directory) = days.map (entriesText codec)
  increasing : (days.flatten.map seq).Pairwise (· < ·)
  bounded : ∀ entry ∈ days.flatten, entry.seq ≤ u64Max

section

variable {days : List (List (JournalEntry Value))}

section

variable (h : Recorded codec directory days)

include h

theorem Recorded.journalItems_eq :
    journalItems codec directory =
      days.flatMap fun day => parseAll codec (entriesText codec day) := by
  have hmap : ∀ paths : List String,
      (paths.flatMap fun path => parseAll codec (contentOf directory path)) =
        (paths.map (contentOf directory)).flatMap (parseAll codec) := by
    intro paths
    rw [flatMap_map]
  rw [journalItems, hmap, h.files, flatMap_map]

variable (hfaithful : codec.Faithful) (hshows : codec.Shows)

include hfaithful hshows

theorem Recorded.itemNumbers_eq :
    itemNumbers (journalItems codec directory) = days.flatten.map seq := by
  rw [h.journalItems_eq]
  have hbounded := h.bounded
  clear h
  induction days with
  | nil => rfl
  | cons _ _ ih =>
    simp only [flatten_cons, forall_mem_append] at hbounded
    rw [flatMap_cons, itemNumbers_append, ih hbounded.2,
      itemNumbers_entriesText hfaithful hshows hbounded.1, flatten_cons, map_append]

theorem Recorded.ordered : (itemNumbers (journalItems codec directory)).Pairwise (· < ·) := by
  rw [h.itemNumbers_eq hfaithful hshows]
  exact h.increasing

theorem Recorded.deliverable_eq :
    deliverable codec directory = (days.flatten.filter (FitsLine codec)).map seq := by
  rw [deliverable, h.journalItems_eq]
  have hbounded := h.bounded
  clear h
  induction days with
  | nil => rfl
  | cons _ _ ih =>
    simp only [flatten_cons, forall_mem_append] at hbounded
    rw [flatMap_cons, itemEvents_append, map_append, ih hbounded.2,
      itemEvents_entriesText hfaithful hshows hbounded.1, flatten_cons, filter_append,
      map_append, map_map]
    rfl

end

end

namespace Relay

variable {relay : Relay} {dropped : Nat}

/-- Nothing that a view can show is past what was dropped. -/
structure Stuck (codec : JournalCodec Value) (directory : Directory) (dropped : Nat)
    (relay : Relay) : Prop where
  views : relay.subscriptions ≠ []
  positive : expected none ≤ dropped
  floors : ∀ s ∈ relay.subscriptions, ∀ floor ∈ s.liveFloor, expected (some floor) ≤ dropped
  events : ∀ n ∈ deliverable codec directory, expected (some n) ≤ dropped

/-- The views may change as long as their floors stay. -/
theorem Stuck.change (h : relay.Stuck codec directory dropped) {next : Relay}
    (hviews : next.subscriptions ≠ [])
    (hfloors : ∀ s ∈ next.subscriptions, ∀ floor ∈ s.liveFloor, expected (some floor) ≤ dropped) :
    next.Stuck codec directory dropped :=
  ⟨hviews, h.positive, hfloors, h.events⟩

/-- No cursor that the live views choose is past what was dropped. -/
theorem Stuck.startCursor_le (h : relay.Stuck codec directory dropped)
    {live : List RelaySubscription} (hsettled : ∀ s ∈ live, s.Settled codec directory)
    (hfloors : ∀ s ∈ live, ∀ floor ∈ s.liveFloor, expected (some floor) ≤ dropped) :
    expected (startCursor live) ≤ dropped := by
  cases hcursor : startCursor live with
  | none => exact h.positive
  | some q =>
    have hmem := (max?_eq_some_iff.mp hcursor).1
    obtain ⟨s, hs, hq⟩ := mem_filterMap.mp hmem
    rcases position_cases hq with hthrough | hfloor
    · exact h.events q ((hsettled s hs).through q hthrough)
    · exact hfloors s hs q hfloor

section

variable (hshows : codec.Shows)
  (hordered : (itemNumbers (journalItems codec directory)).Pairwise (· < ·))

include hshows hordered

/-- The gap is found again after some turns of the loop. -/
theorem Catching.tells_again (h : relay.Catching codec directory dropped)
    (hstuck : relay.Stuck codec directory dropped) (today : Nat → String) :
    ∃ n, 1 ≤ (alone codec directory n today relay).1.length ∧
      (alone codec directory n today relay).2.Catching codec directory dropped ∧
      (alone codec directory n today relay).2.Stuck codec directory dropped := by
  obtain ⟨s, hs⟩ := exists_mem_of_ne_nil _ hstuck.views
  induction hleft : s.remaining codec directory using Nat.strongRecOn
    generalizing relay s today with
  | ind _ ih =>
    obtain ⟨n, views, hrelated, horderly, hturn⟩ := h.turn hshows hordered today
    obtain ⟨next, hnext, hserved⟩ := exists_of_forall₂ hrelated.flip hs
    have hfloors : ∀ view ∈ views, ∀ floor ∈ view.liveFloor, expected (some floor) ≤ dropped := by
      intro view hview
      obtain ⟨before, hbefore, hserved⟩ := exists_of_forall₂ hrelated hview
      rw [served_liveFloor hshows hordered (h.orderly before hbefore) hserved]
      exact hstuck.floors before hbefore
    rw [h.dropped] at hturn
    rcases hturn with ⟨hwaits, hviews, hcatching⟩ |
      ⟨-, ⟨hahead, -⟩ | ⟨-, hsent, hcatching, hostToday, hviews⟩⟩
    · -- Nobody is live yet: the replay of this view goes on.
      have hnot : ¬ next.Settled codec directory := by
        intro hsettled
        exact absurd hsettled.live (by rw [hwaits next hnext]; exact Bool.false_ne_true)
      have hreplays : s.Replays codec directory := by
        refine (h.orderly s hs).resolve_left fun hsettled => hnot ?_
        rwa [served_settled hsettled hserved]
      have hless := (served_replays hshows hordered hreplays hserved).1
      have hstuck' : (alone codec directory n today relay).2.Stuck codec directory dropped := by
        apply hstuck.change
        · rw [hviews]
          exact ne_nil_of_mem hnext
        · rwa [hviews]
      obtain ⟨m, _, hlater, hstuck''⟩ := ih _ (hleft ▸ hless) hcatching hstuck'
        (fun i => today (i + n)) next (hviews ▸ hnext) rfl
      refine ⟨n + m, ?_⟩
      rw [alone_add]
      refine ⟨?_, hlater, hstuck''⟩
      simp only [length_append]
      omega
    · -- The cursor is one of the positions of the live views.
      have hcursor : (relay.served views).fanoutInUse.cursor =
          startCursor (relay.served views).live := by
        rw [fanoutInUse, if_neg (by rw [served, h.had]; exact Bool.false_ne_true)]
      have hsettled : ∀ view ∈ (relay.served views).live, view.Settled codec directory := by
        intro view hview
        obtain ⟨hview, hcaught⟩ := mem_filter.mp hview
        refine (horderly view hview).resolve_right fun hreplays => ?_
        rw [hreplays.replaying] at hcaught
        cases hcaught
      have hle := hstuck.startCursor_le hsettled
        fun view hview => hfloors view (mem_filter.mp hview).1
      rw [hcursor] at hahead
      omega
    · refine ⟨n, hsent, hcatching, hstuck.change ?_ ?_⟩
      · rw [hviews]
        simpa using ne_nil_of_mem hnext
      rw [hviews]
      intro _ hother
      obtain ⟨view, hview, rfl⟩ := mem_map.mp hother
      split
      · exact hfloors view hview
      · exact hfloors view hview

/-- The messages never come to an end. -/
theorem Catching.unbounded (h : relay.Catching codec directory dropped)
    (hstuck : relay.Stuck codec directory dropped) (today : Nat → String) (count : Nat) :
    ∃ n, count ≤ (alone codec directory n today relay).1.length := by
  induction count generalizing relay today with
  | zero => exact ⟨0, Nat.zero_le _⟩
  | succ _ ih =>
    obtain ⟨n, _, hcatching, hstuck'⟩ := h.tells_again hshows hordered hstuck today
    obtain ⟨m, _⟩ := ih hcatching hstuck' fun i => today (i + n)
    refine ⟨n + m, ?_⟩
    rw [alone_add]
    simp only [length_append]
    omega

end

/-- All views have caught up, and the thread is between two turns of its loop. What a view has
been sent last stands in the journal. -/
structure AllLive (codec : JournalCodec Value) (entries : List (JournalEntry Value))
    (relay : Relay) : Prop where
  phase : relay.phase = .command
  idle : relay.fanout.numbers = []
  caughtUp : ∀ s ∈ relay.subscriptions, s.caughtUp = true ∧ s.numbers = []
  through : ∀ s ∈ relay.subscriptions, ∀ n ∈ s.throughSeq,
    ∃ entry ∈ entries, FitsLine codec entry ∧ entry.seq = n

/-- Nothing was dropped, or something is past it: an entry that can be replayed, the floor of a
view, or the cursor that is in use. -/
def CanPass (codec : JournalCodec Value) (entries : List (JournalEntry Value)) (relay : Relay) :
    Prop :=
  relay.feed.droppedThrough < expected none ∨
    (∃ entry ∈ entries, FitsLine codec entry ∧
      relay.feed.droppedThrough < expected (some entry.seq)) ∨
    (∃ s ∈ relay.subscriptions, ∃ floor ∈ s.liveFloor,
      relay.feed.droppedThrough < expected (some floor)) ∨
    relay.hadLiveSubscriptions = true ∧ relay.feed.droppedThrough < expected relay.fanout.cursor

theorem alone_of_no_views (hviews : relay.views = []) (hphase : relay.phase ≠ .flushing) (n : Nat)
    (today : Nat → String) : (alone codec directory n today relay).1 = [] := by
  induction n generalizing relay today with
  | zero => rfl
  | succ _ ih =>
    obtain ⟨hsubscriptions, hwaiting⟩ := append_eq_nil_iff.mp hviews
    have hstep : (relay.step codec directory (today 0) none).1 = [] ∧
        (relay.step codec directory (today 0) none).2.views = [] ∧
        (relay.step codec directory (today 0) none).2.phase ≠ .flushing := by
      cases hcurrent : relay.phase with
      | command =>
        simp only [step, hcurrent, takeCommand, views, hsubscriptions]
        exact ⟨trivial, rfl, by simp⟩
      | serving waiting =>
        rw [hcurrent] at hwaiting
        obtain rfl : waiting = [] := hwaiting
        simp only [step, hcurrent, followLive, live, hsubscriptions, filter_nil, if_true, views]
        exact ⟨trivial, rfl, by simp⟩
      | flushing => exact absurd hcurrent hphase
    simp only [alone, hstep.1, nil_append]
    exact ih hstep.2.1 hstep.2.2 _

theorem served_eq_of_settled {before after : List RelaySubscription}
    (h : List.Forall₂ (Served codec directory) before after)
    (hsettled : ∀ s ∈ before, s.Settled codec directory) : after = before := by
  induction h with
  | nil => rfl
  | cons hserved _ ih =>
    obtain ⟨hhead, htail⟩ := forall_mem_cons.mp hsettled
    rw [served_settled hhead hserved, ih htail]

theorem expected_none_le (cursor : Option Nat) : expected none ≤ expected cursor := by
  cases cursor with
  | none => exact le_rfl
  | some =>
    simp only [expected, Option.elim_none, Option.elim_some, u64Max]
    omega

/-- The last event that can be replayed is the greatest. -/
theorem exists_last_deliverable
    (hordered : (itemNumbers (journalItems codec directory)).Pairwise (· < ·)) {n : Nat}
    (hn : n ∈ deliverable codec directory) :
    ∃ last, (deliverable codec directory).getLast? = some last ∧ n ≤ last := by
  have hsorted : (deliverable codec directory).Pairwise (· < ·) :=
    hordered.sublist (itemEvents_sublist _)
  cases hlast : (deliverable codec directory).getLast? with
  | none =>
    rw [getLast?_eq_none_iff.mp hlast] at hn
    cases hn
  | some last =>
    refine ⟨last, rfl, ?_⟩
    obtain ⟨_, hbefore⟩ := getLast?_eq_some_iff.mp hlast
    rw [hbefore] at hn hsorted
    rcases mem_append.mp hn with hmem | hmem
    · exact ((pairwise_append.mp hsorted).2.2 n hmem last mem_cons_self).le
    · exact (mem_singleton.mp hmem).le

section

variable {days : List (List (JournalEntry Value))} (hfaithful : codec.Faithful)
  (hshows : codec.Shows) (hrecorded : Recorded codec directory days)
  (hlive : relay.AllLive codec days.flatten)

include hfaithful hshows hrecorded

theorem mem_deliverable {n : Nat} :
    n ∈ deliverable codec directory ↔
      ∃ entry ∈ days.flatten, FitsLine codec entry ∧ entry.seq = n := by
  rw [hrecorded.deliverable_eq hfaithful hshows]
  simp only [mem_map, mem_filter, decide_eq_true_eq, and_assoc]

include hlive

theorem AllLive.settled {s : RelaySubscription} (hs : s ∈ relay.subscriptions) :
    s.Settled codec directory where
  live := (hlive.caughtUp s hs).1
  idle := (hlive.caughtUp s hs).2
  through := fun n hn => (mem_deliverable hfaithful hshows hrecorded).mpr (hlive.through s hs n hn)

section

variable (hviews : relay.subscriptions ≠ [])

include hviews

/-- The first turn of the loop finds the cursor past what was dropped, or all views are sent
back to the files. -/
theorem AllLive.turn (today : Nat → String) :
    let cursor := (relay.served relay.subscriptions).fanoutInUse.cursor
    let dropped := relay.feed.droppedThrough
    ∃ n, let next := alone codec directory n today relay
      dropped < expected cursor ∧ next.2.Following codec directory ∨
        expected cursor ≤ dropped ∧ next.2.Catching codec directory dropped ∧
          ∃ hostToday, next.2.subscriptions = relay.subscriptions.map fun s =>
            s.restartFromSeq codec directory hostToday (expected cursor) := by
  intro cursor dropped
  have hsettled : ∀ s ∈ relay.subscriptions, s.Settled codec directory := fun s hs =>
    hlive.settled hfaithful hshows hrecorded hs
  have hordered := hrecorded.ordered hfaithful hshows
  have hbetween : relay.Between codec directory :=
    ⟨hlive.phase, hlive.idle, fun s hs => .inl (hsettled s hs)⟩
  obtain ⟨n, _, hrelated, -, hturn⟩ := hbetween.turn hshows hordered today
  obtain rfl := served_eq_of_settled hrelated hsettled
  refine ⟨n, ?_⟩
  rcases hturn with ⟨hwaits, -⟩ | ⟨-, hahead | ⟨hbehind, -, hcatching, hostToday, hviews⟩⟩
  · obtain ⟨s, hs⟩ := exists_mem_of_ne_nil _ hviews
    exact absurd (hsettled s hs).live (by rw [hwaits s hs]; exact Bool.false_ne_true)
  · exact .inl hahead
  refine .inr ⟨hbehind, hcatching, hostToday, ?_⟩
  rw [hviews]
  apply map_congr_left
  intro s hs
  rw [if_pos (hsettled s hs).live]

/-- The views are sent back once at most, and then they follow the feed. -/
theorem AllLive.follows (hpass : relay.CanPass codec days.flatten) (today : Nat → String) :
    ∃ n, (alone codec directory n today relay).2.Following codec directory := by
  have hordered := hrecorded.ordered hfaithful hshows
  obtain ⟨n, hturn⟩ := hlive.turn hfaithful hshows hrecorded hviews today
  rcases hturn with ⟨-, hfollowing⟩ | ⟨hbehind, hcatching, _, hrestarted⟩
  · exact ⟨n, hfollowing⟩
  -- A view that comes back past what was dropped.
  obtain ⟨s, hs, hreturns⟩ : ∃ s ∈ (alone codec directory n today relay).2.subscriptions,
      WillPass codec directory relay.feed.droppedThrough s := by
    rw [hrestarted]
    rcases hpass with hnone | ⟨entry, hentry, hfits, hahead⟩ | ⟨s, hs, floor, hfloor, hahead⟩ |
      ⟨hhad, hahead⟩
    · exact absurd (hnone.trans_le (expected_none_le _)) (not_lt.mpr hbehind)
    · obtain ⟨_, hs⟩ := exists_mem_of_ne_nil _ hviews
      obtain ⟨last, hlast, hle⟩ := exists_last_deliverable hordered
        ((mem_deliverable hfaithful hshows hrecorded).mpr ⟨entry, hentry, hfits, rfl⟩)
      have hpassed := hahead.trans_le (expected_mono hle)
      refine ⟨_, mem_map_of_mem hs, .inr ⟨last, hlast, hpassed, ?_⟩⟩
      rintro _ ⟨⟩
      have hnext : expected (some last) ≤ last + 1 := min_le_right _ _
      omega
    · exact ⟨_, mem_map_of_mem hs, .inl ⟨floor, hfloor, hahead⟩⟩
    · have hcursor : (relay.served relay.subscriptions).fanoutInUse = relay.fanout := if_pos hhad
      rw [hcursor] at hbehind
      omega
  have hreplays : s.Replays codec directory := by
    rw [hrestarted] at hs
    obtain ⟨_, hbefore, rfl⟩ := mem_map.mp hs
    exact RelaySubscription.restartFromSeq_replays
      (hlive.settled hfaithful hshows hrecorded hbefore).through _ _
  obtain ⟨m, _⟩ := hcatching.reaches hshows hordered hs hreplays hreturns fun i => today (i + n)
  refine ⟨n + m, ?_⟩
  rwa [alone_add]

/-- The gap is told over and over. -/
theorem AllLive.unbounded (hpass : ¬ relay.CanPass codec days.flatten) (today : Nat → String)
    (count : Nat) : ∃ n, count ≤ (alone codec directory n today relay).1.length := by
  have hordered := hrecorded.ordered hfaithful hshows
  have hstuck : relay.Stuck codec directory relay.feed.droppedThrough := by
    refine ⟨hviews, ?_, ?_, ?_⟩
    · exact not_lt.mp fun hnone => hpass (.inl hnone)
    · intro s hs floor hfloor
      exact not_lt.mp fun hahead => hpass (.inr (.inr (.inl ⟨s, hs, floor, hfloor, hahead⟩)))
    · intro n hn
      obtain ⟨entry, hentry, hfits, rfl⟩ := (mem_deliverable hfaithful hshows hrecorded).mp hn
      exact not_lt.mp fun hahead => hpass (.inr (.inl ⟨entry, hentry, hfits, hahead⟩))
  -- the first cursor is behind too: the first turn sends the views back
  have hcursor : expected (relay.served relay.subscriptions).fanoutInUse.cursor ≤
      relay.feed.droppedThrough := by
    unfold fanoutInUse
    split
    next hhad => exact not_lt.mp fun hahead => hpass (.inr (.inr (.inr ⟨hhad, hahead⟩)))
    · apply hstuck.startCursor_le
      · intro s hs
        exact hlive.settled hfaithful hshows hrecorded (mem_filter.mp hs).1
      · exact fun s hs => hstuck.floors s (mem_filter.mp hs).1
  obtain ⟨n, hturn⟩ := hlive.turn hfaithful hshows hrecorded hviews today
  rcases hturn with ⟨hahead, -⟩ | ⟨-, hcatching, _, hrestarted⟩
  · exact absurd hahead (not_lt.mpr hcursor)
  have hstuck' : (alone codec directory n today relay).2.Stuck codec directory
      relay.feed.droppedThrough := by
    apply hstuck.change
    · rw [hrestarted]
      simpa using hviews
    · rw [hrestarted]
      intro _ hother
      obtain ⟨s, hs, rfl⟩ := mem_map.mp hother
      exact hstuck.floors s hs
  obtain ⟨m, _⟩ := hcatching.unbounded hshows hordered hstuck' (fun i => today (i + n)) count
  refine ⟨n + m, ?_⟩
  rw [alone_add]
  simp only [length_append]
  omega

end

end

/-- When nothing more is appended or published and no command comes, the relay becomes quiet
exactly if it has no views or can pass what was dropped. -/
theorem relay_quiet_iff {days : List (List (JournalEntry Value))} (hfaithful : codec.Faithful)
    (hshows : codec.Shows) (hrecorded : Recorded codec directory days)
    (hlive : relay.AllLive codec days.flatten) :
    relay.Quiet codec directory ↔ relay.subscriptions = [] ∨ relay.CanPass codec days.flatten := by
  have hordered := hrecorded.ordered hfaithful hshows
  constructor
  · intro hquiet
    by_contra hnot
    obtain ⟨hviews, hpass⟩ := not_or.mp hnot
    obtain ⟨bound, hbound⟩ := hquiet fun _ => ""
    obtain ⟨n, hcount⟩ := hlive.unbounded hfaithful hshows hrecorded hviews hpass (fun _ => "")
      (bound + 1)
    exact absurd (hbound n) (not_le.mpr hcount)
  · intro hpass today
    by_cases hviews : relay.subscriptions = []
    · refine ⟨0, fun n => ?_⟩
      rw [alone_of_no_views]
      · exact le_rfl
      · rw [views, hviews, hlive.phase]
        rfl
      · rw [hlive.phase]
        simp
    · obtain ⟨_, hfollowing⟩ := hlive.follows hfaithful hshows hrecorded hviews
        (hpass.resolve_left hviews) today
      exact bounded_of_following hshows hordered hfollowing

def paddedDay (entries : List (JournalEntry Nat)) : Directory :=
  AList.singleton "2026-01-01.jsonl" (entriesText noteCodec entries)

def noteEvent (entry : JournalEntry Nat) : JournalLiveEvent := ⟨entry.seq, noteCodec.toVec entry⟩

/-- One view has been shown the only note of the day. -/
@[irreducible]
def watching : Relay :=
  let directory := paddedDay [paddedNote 1 0]
  let feed := (JournalLiveFeed.new liveFeedCapacityBytes).publish (noteEvent (paddedNote 1 0))
  let subscribed := (Relay.start feed).step noteCodec directory "2026-01-01"
    (some ("view", .seq 1))
  (alone noteCodec directory 9 (fun _ => "2026-01-01") subscribed.2).2

theorem journalFiles_paddedDay (entries : List (JournalEntry Nat)) :
    journalFiles (paddedDay entries) = ["2026-01-01.jsonl"] := by
  have hname : isJournalFile "2026-01-01.jsonl" = true := by decide +kernel
  simp [journalFiles, paddedDay, AList.singleton, AList.keys, hname]

theorem recorded_paddedDay {entries : List (JournalEntry Nat)}
    (hincreasing : (entries.map seq).Pairwise (· < ·))
    (hbounded : ∀ entry ∈ entries, entry.seq ≤ u64Max) :
    Recorded noteCodec (paddedDay entries) [entries] where
  files := by
    rw [journalFiles_paddedDay]
    simp [contentOf, paddedDay, AList.singleton, AList.lookup]
  increasing := by simpa using hincreasing
  bounded := by simpa using hbounded

theorem watching_spec :
    (watching.phase = .command ∧ watching.fanout = ⟨⟨[], none⟩, some 1⟩ ∧
      watching.feed = .raiseLatest (.new liveFeedCapacityBytes) 1 ∧
        watching.subscriptions.length = 1) ∧
      ∀ s ∈ watching.subscriptions, s.caughtUp = true ∧ s.numbers = [] ∧
        s.throughSeq = some 1 ∧ s.liveFloor = some 1 := by
  decide +kernel

theorem watching_allLive (feed : JournalLiveFeed) (entries : List (JournalEntry Nat)) :
    { watching with feed }.AllLive noteCodec (paddedNote 1 0 :: entries) := by
  obtain ⟨⟨hphase, hfanout, -, -⟩, hviews⟩ := watching_spec
  refine ⟨hphase, ?_, ?_, ?_⟩
  · rw [hfanout]
    rfl
  · exact fun s hs => ⟨(hviews s hs).1, (hviews s hs).2.1⟩
  intro s hs n hn
  rw [(hviews s hs).2.2.1] at hn
  cases hn
  have hfits : FitsLine noteCodec (paddedNote 1 0) := by decide +kernel
  exact ⟨paddedNote 1 0, mem_cons_self, hfits, rfl⟩

theorem watching_publish {length : Nat} (h : liveFeedCapacityBytes ≤ length) :
    watching.feed.publish (noteEvent (paddedNote 2 length)) =
      ((JournalLiveFeed.new liveFeedCapacityBytes).raiseLatest 2).raiseDropped 2 := by
  rw [watching_spec.1.2.2.1, publish_long]
  · rfl
  · exact h.trans_lt (length_paddedNote length (by decide)).1

/-- A note that can be shown after the long one ends the replays. -/
theorem short_note_ends_replays :
    let entries := [paddedNote 1 0, paddedNote 2 liveFeedCapacityBytes, paddedNote 3 0]
    let feed := (watching.feed.publish (noteEvent (paddedNote 2 liveFeedCapacityBytes))).publish
      (noteEvent (paddedNote 3 0))
    let relay := { watching with feed }
    relay.feed.droppedThrough = 2 ∧ relay.Quiet noteCodec (paddedDay entries) := by
  -- The length stays a variable: nothing is to be computed from the long note.
  generalize hlength : liveFeedCapacityBytes = length
  have hdropped : ((watching.feed.publish (noteEvent (paddedNote 2 length))).publish
      (noteEvent (paddedNote 3 0))).droppedThrough = 2 := by
    rw [watching_publish hlength.le]
    decide +kernel
  generalize (watching.feed.publish (noteEvent (paddedNote 2 length))).publish
      (noteEvent (paddedNote 3 0)) = feed at hdropped
  intro entries _ relay
  have hrecorded : Recorded noteCodec (paddedDay entries) [entries] := by
    apply recorded_paddedDay
    · simp [entries, paddedNote, JournalEntry.new]
    · simp [entries, paddedNote, JournalEntry.new, u64Max]
  have hfits : FitsLine noteCodec (paddedNote 3 0) := by decide +kernel
  have hmem : paddedNote 3 0 ∈ [entries].flatten := by simp [entries]
  have hahead : relay.feed.droppedThrough < expected (some (paddedNote 3 0).seq) := by
    rw [hdropped]
    decide +kernel
  have hpass : relay.CanPass noteCodec [entries].flatten :=
    .inr (.inl ⟨paddedNote 3 0, hmem, hfits, hahead⟩)
  refine ⟨hdropped, ?_⟩
  exact (relay_quiet_iff noteCodec_faithful noteCodec_shows hrecorded
    (watching_allLive feed _)).mpr (.inr hpass)

/-- The long note comes last: it is dropped from the feed, it cannot be replayed, and the gap is
told for ever. -/
theorem long_note_is_told_for_ever :
    let entries := [paddedNote 1 0, paddedNote 2 liveFeedCapacityBytes]
    let feed := watching.feed.publish (noteEvent (paddedNote 2 liveFeedCapacityBytes))
    let relay := { watching with feed }
    Recorded noteCodec (paddedDay entries) [entries] ∧ relay.AllLive noteCodec entries ∧
      ¬ relay.Quiet noteCodec (paddedDay entries) := by
  have hlimit : maxIncrementalLineBytes = liveFeedCapacityBytes := rfl
  generalize hlength : liveFeedCapacityBytes = length at hlimit
  have hdropped : (watching.feed.publish (noteEvent (paddedNote 2 length))).droppedThrough = 2 := by
    rw [watching_publish hlength.le]
    rfl
  generalize watching.feed.publish (noteEvent (paddedNote 2 length)) = feed at hdropped
  intro entries _ relay
  have hrecorded : Recorded noteCodec (paddedDay entries) [entries] := by
    apply recorded_paddedDay
    · simp [entries, paddedNote, JournalEntry.new]
    · simp [entries, paddedNote, JournalEntry.new, u64Max]
  have hlive : relay.AllLive noteCodec entries := watching_allLive feed _
  obtain ⟨⟨-, hfanout, -, hone⟩, hall⟩ := watching_spec
  have hviews : relay.subscriptions ≠ [] := by
    apply ne_nil_of_length_pos
    rw [hone]
    exact Nat.one_pos
  have hbehind : ¬ feed.droppedThrough < expected (some 1) := by
    rw [hdropped]
    decide +kernel
  have hpass : ¬ relay.CanPass noteCodec [entries].flatten := by
    rintro (h | ⟨_, hentry, hfits, h⟩ | ⟨s, hs, floor, hfloor, h⟩ | ⟨-, h⟩)
    · exact hbehind (h.trans_le (expected_none_le _))
    · simp only [entries, flatten_cons, flatten_nil, append_nil, mem_cons,
        not_mem_nil, or_false] at hentry
      rcases hentry with rfl | rfl
      · exact hbehind h
      · have hlong := (length_paddedNote length (show 2 ≤ u64Max by decide)).1
        exact absurd hlong (not_lt.mpr (hlimit ▸ hfits))
    · rw [(hall s hs).2.2.2] at hfloor
      cases hfloor
      exact hbehind h
    · rw [hfanout] at h
      exact hbehind h
  refine ⟨hrecorded, hlive, ?_⟩
  intro hquiet
  obtain ⟨bound, hbound⟩ := hquiet fun _ => ""
  obtain ⟨n, hcount⟩ := hlive.unbounded noteCodec_faithful noteCodec_shows hrecorded hviews hpass
    (fun _ => "") (bound + 1)
  exact absurd (hbound n) (not_le.mpr hcount)

end Relay

end Bridget.Attach
