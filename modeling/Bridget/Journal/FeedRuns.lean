import Bridget.Journal.LiveFeed

/-!
# What the live feed tells its consumer

A number that the publisher has settled is in the channel, was taken out of it, or is at most
`dropped_through`. When the consumer takes an event, the numbers before it that it has not
seen are therefore in the gap, provided that `dropped_through` still is what this call has
read. A drop that falls between that read and the event is not told to anyone.
-/

namespace Bridget.Journal

open Foundation JournalLiveFeed FeedState List JournalLiveEvent Option

/-- The event whose publication is not finished. -/
def Publisher.inFlight : Publisher → Option JournalLiveEvent
  | .idle => none
  | .reserving event | .sending event | .releasing event | .reloading event
  | .marking event _ => some event

/-- Every smaller number has been published to the end. -/
def FeedState.settled (s : FeedState) : Nat := (s.publisher.inFlight.map seq).getD s.nextSeq

/-- The cursor is at the number or past it. -/
def Passed (cursor : Option Nat) (k : Nat) : Prop := ∃ c ∈ cursor, k ≤ c

def Covers (range : Nat × Nat) (k : Nat) : Prop := range.1 ≤ k ∧ k ≤ range.2

/-- The consumer got the event, was told of the gap it is in, or read it elsewhere past the
end of a gap. -/
def FeedState.Told (s : FeedState) (k : Nat) : Prop :=
  k ∈ s.returned ∨ (∃ gap ∈ s.gaps, Covers gap k) ∨ ∃ range ∈ s.reread, Covers range k

def Consumer.events : Consumer → List JournalLiveEvent
  | .idle | .rereading _ => []
  | .draining _ events => events
  | .received _ events event => events ++ [event]

/-- The call in progress is going to tell the consumer. -/
def Consumer.WillTell (cursor : Option Nat) (k : Nat) : Consumer → Prop
  | .idle | .rereading _ => False
  | .draining dropped events => k ∈ events.map seq ∨ ∃ gap ∈ gapAfter cursor dropped, Covers gap k
  | .received dropped events event =>
    k ∈ events.map seq ∨ (k = event.seq ∧ isNew cursor event = true) ∨
      ∃ gap ∈ gapAfter cursor dropped, Covers gap k

structure FeedState.Accounted (first : Nat) (initial : Option Nat) (s : FeedState) : Prop where
  ordered : s.feed.channel.Pairwise fun a b => a.seq < b.seq
  queued : ∀ event ∈ s.feed.channel, s.taken < event.seq ∧ event.seq < s.settled
  taken : s.taken < s.settled
  flying : ∀ event ∈ s.publisher.inFlight, event.seq + 1 = s.nextSeq ∧ event.seq ≤ s.feed.latestSeq
  marked : ∀ event through, s.publisher = .marking event through → event.seq ≤ through
  /-- No number is lost before the consumer comes to it. -/
  fate : ∀ k, first ≤ k → k < s.settled → s.taken < k →
    (∃ event ∈ s.feed.channel, event.seq = k) ∨ k ≤ s.feed.droppedThrough
  /-- No number is lost behind the cursor. -/
  told : ∀ k, first ≤ k → ¬ Passed initial k → Passed s.cursor k → s.Told k
  /-- Nor is one that was overtaken in the channel. -/
  overtaken : ∀ k, first ≤ k → ¬ Passed initial k → k ≤ s.taken →
    s.Told k ∨ s.consumer.WillTell s.cursor k
  received : ∀ event ∈ s.consumer.events, event.seq ≤ s.taken
  reread : ∀ through, s.consumer = .rereading through →
    ∃ gap ∈ s.gaps, gap = (expected s.cursor, through)

variable {first : Nat} {initial : Option Nat} {s : FeedState}

/-- An event is only received while `dropped_through` is what this call has read. -/
def FeedLabel.Synced (s : FeedState) : FeedLabel → Prop
  | .consumer => ∀ dropped events, s.consumer = .draining dropped events →
      s.feed.channel ≠ [] → s.feed.droppedThrough = dropped
  | .publish _ | .publisher | .resume _ => True

namespace FeedState

theorem Told.mono {s' : FeedState} {k : Nat} (h : s.Told k)
    (hreturned : s.returned ⊆ s'.returned) (hgaps : s.gaps ⊆ s'.gaps)
    (hreread : s.reread ⊆ s'.reread) : s'.Told k := by
  rcases h with hmem | ⟨gap, hgap, hcovers⟩ | ⟨range, hrange, hcovers⟩
  · exact .inl (hreturned hmem)
  · exact .inr (.inl ⟨gap, hgaps hgap, hcovers⟩)
  · exact .inr (.inr ⟨range, hreread hrange, hcovers⟩)

variable {event : JournalLiveEvent} {cursor : Option Nat}

theorem not_passed_iff : isNew cursor event = true ↔ ¬ Passed cursor event.seq := by
  cases cursor <;> simp [isNew, Passed]

theorem expected_le {k : Nat} (hpositive : 0 < k)
    (hnew : ¬ Passed cursor k) : expected cursor ≤ k := by
  cases cursor with
  | none => exact hpositive
  | some c =>
    have hless : c < k := by simpa [Passed] using hnew
    simp only [expected, elim_some]
    omega

section

variable (h : s.Accounted first initial) {feed : JournalLiveFeed}

include h

theorem Accounted.publish (bytes : Bytes) : (s.step (.publish bytes)).Accounted first initial := by
  unfold step
  dsimp only
  split
  next hidle =>
    have hsettled : s.settled = s.nextSeq := by simp [settled, hidle, Publisher.inFlight]
    refine { h with queued := ?_, taken := ?_, flying := ?_, marked := ?_, fate := ?_ }
    · intro event hevent
      exact hsettled ▸ h.queued event hevent
    · exact hsettled ▸ h.taken
    · rintro _ ⟨⟩
      exact ⟨rfl, le_max_right _ _⟩
    · intro event _ hmarking
      cases hmarking
    · intro k hfirst hk
      exact h.fate k hfirst (hsettled ▸ hk)
  · exact h

/-- A step that neither ends the publication nor touches the channel or the mark. -/
theorem Accounted.fly {publisher : Publisher} (hfly : s.publisher.inFlight = some event)
    (hflies : publisher.inFlight = some event) (hchannel : feed.channel = s.feed.channel)
    (hdropped : feed.droppedThrough = s.feed.droppedThrough)
    (hlatest : feed.latestSeq = s.feed.latestSeq)
    (hmarked : ∀ event' through, publisher = .marking event' through → event'.seq ≤ through) :
    { s with feed, publisher }.Accounted first initial := by
  have hsettled : { s with feed, publisher }.settled = s.settled := by simp [settled, hfly, hflies]
  refine { h with
    ordered := hchannel ▸ h.ordered, queued := ?_, taken := hsettled ▸ h.taken, flying := ?_
    marked := hmarked, fate := ?_ }
  · rw [hsettled, hchannel]
    exact h.queued
  · intro other hother
    rw [hlatest]
    exact h.flying other (by rw [hfly, ← hflies]; exact hother)
  · rw [hsettled, hchannel, hdropped]
    exact h.fate

/-- The end of a publication: the event is in the channel or below the mark. -/
theorem Accounted.land (hfly : s.publisher.inFlight = some event)
    (hordered : feed.channel.Pairwise fun a b => a.seq < b.seq)
    (hadded : ∀ other ∈ feed.channel, other ∈ s.feed.channel ∨ other = event)
    (hkept : ∀ other ∈ s.feed.channel, other ∈ feed.channel)
    (hdropped : s.feed.droppedThrough ≤ feed.droppedThrough)
    (hlanded : event ∈ feed.channel ∨ event.seq ≤ feed.droppedThrough) :
    { s with feed, publisher := .idle }.Accounted first initial := by
  have hold : s.settled = event.seq := by simp [settled, hfly]
  have hnew : { s with feed, publisher := .idle }.settled = event.seq + 1 :=
    (h.flying event hfly).1.symm
  refine { h with
    ordered := hordered, queued := ?_, taken := ?_, flying := ?_, marked := ?_, fate := ?_ }
  · intro other hother
    change s.taken < other.seq ∧ _
    rcases hadded other hother with hmem | rfl
    · have hqueued := h.queued other hmem
      omega
    · have htaken := h.taken
      omega
  · have htaken := h.taken
    change s.taken < _
    omega
  · intro other hother
    cases hother
  · intro other _ hmarking
    cases hmarking
  · intro k hfirst _ htaken
    by_cases hlast : k = event.seq
    · subst hlast
      exact hlanded.imp_left fun hmem => ⟨event, hmem, rfl⟩
    · rcases h.fate k hfirst (by omega) htaken with ⟨other, hmem, hseq⟩ | hmark
      · exact .inl ⟨other, hkept other hmem, hseq⟩
      · exact .inr (hmark.trans hdropped)

theorem Accounted.publisherStep : s.publisherStep.Accounted first initial := by
  unfold FeedState.publisherStep
  split
  · exact h
  all_goals have hfly : s.publisher.inFlight = some _ := congrArg _ ‹s.publisher = _›
  · split
    next hreserve =>
      unfold JournalLiveFeed.reserve at hreserve
      split at hreserve
      · cases hreserve
        exact h.fly hfly rfl rfl rfl rfl nofun
      · cases hreserve
    · refine h.fly hfly rfl rfl rfl rfl ?_
      rintro _ _ ⟨⟩
      exact le_rfl
  next event hpublisher =>
    split
    next hsend =>
      unfold JournalLiveFeed.trySend at hsend
      split at hsend
      · cases hsend
        refine h.land hfly ?_ ?_ ?_ le_rfl (.inl (by simp))
        · refine pairwise_append.mpr ⟨h.ordered, pairwise_singleton _ _, ?_⟩
          intro other hother _ hlast
          obtain rfl := mem_singleton.mp hlast
          simpa [settled, hfly] using (h.queued other hother).2
        · intro other hother
          simpa using hother
        · intro other hother
          exact mem_append_left _ hother
      · cases hsend
    · exact h.fly hfly rfl rfl rfl rfl nofun
  next event hpublisher => exact h.fly hfly rfl rfl rfl rfl nofun
  next event hpublisher =>
    refine h.fly hfly rfl rfl rfl rfl ?_
    rintro _ _ ⟨⟩
    exact (h.flying event hfly).2
  next event through hpublisher =>
    refine h.land hfly h.ordered (fun _ => .inl) (fun _ => id) (le_max_left _ _) (.inr ?_)
    exact (h.marked event through hpublisher).trans (le_max_right _ _)

/-- What the rest of the invariant needs when only the consumer has moved. -/
theorem Accounted.load (hidle : s.consumer = .idle) :
    { s with consumer := .draining s.feed.droppedThrough [] }.Accounted first initial := by
  refine { h with overtaken := ?_, received := nofun, reread := nofun }
  intro k hfirst hnew htaken
  rcases h.overtaken k hfirst hnew htaken with htold | hwill
  · exact .inl htold
  · rw [hidle] at hwill
    exact hwill.elim

end

variable {events : List JournalLiveEvent} {dropped : Nat}

/-- Taking the first event out of the channel, while the mark is the one that was read. -/
theorem Accounted.receive (hfirst : 0 < first) (h : s.Accounted first initial)
    {rest : List JournalLiveEvent}
    (hconsumer : s.consumer = .draining dropped events) (hchannel : s.feed.channel = event :: rest)
    (hsame : s.feed.droppedThrough = dropped) :
    { s with
      feed := { s.feed with channel := rest }
      taken := event.seq
      consumer := .received dropped events event }.Accounted first initial := by
  have hordered := h.ordered
  rw [hchannel, pairwise_cons] at hordered
  have hhead : event ∈ s.feed.channel := by simp [hchannel]
  have hbounds := h.queued event hhead
  refine ⟨hordered.2, ?_, hbounds.2, h.flying, h.marked, ?_, h.told, ?_, ?_, nofun⟩
  · intro other hother
    exact ⟨hordered.1 other hother, (h.queued other (by simp [hchannel, hother])).2⟩
  · intro k hk hsettled htaken
    refine (h.fate k hk hsettled (hbounds.1.trans htaken)).imp_left ?_
    rintro ⟨other, hother, rfl⟩
    rw [hchannel] at hother
    rcases mem_cons.mp hother with rfl | hother
    · exact absurd htaken (lt_irrefl _)
    · exact ⟨other, hother, rfl⟩
  · intro k hk hnew hle
    have hle : k ≤ event.seq := hle
    by_cases hpassed : Passed s.cursor k
    · exact .inl (h.told k hk hnew hpassed)
    by_cases hbehind : k ≤ s.taken
    · refine (h.overtaken k hk hnew hbehind).imp_right fun hwill => ?_
      rw [hconsumer] at hwill
      exact hwill.imp_right .inr
    -- the number is between the last event and this one
    right
    by_cases hlast : k = event.seq
    · subst hlast
      exact .inr (.inl ⟨rfl, not_passed_iff.mpr hpassed⟩)
    have hdropped : k ≤ dropped := by
      rcases h.fate k hk (hle.trans_lt hbounds.2) (not_le.mp hbehind) with
        ⟨other, hother, hseq⟩ | hmark
      · rw [hchannel] at hother
        rcases mem_cons.mp hother with rfl | hother
        · exact absurd hseq.symm hlast
        · have hafter := hordered.1 other hother
          omega
      · exact hsame ▸ hmark
    have hexpected := expected_le (hfirst.trans_le hk) hpassed
    refine .inr (.inr ⟨(expected s.cursor, dropped), ?_, hexpected, hdropped⟩)
    exact if_pos (hexpected.trans hdropped)
  · intro other hother
    rcases mem_append.mp hother with hmem | hlast
    · have hother := h.received other (by rw [hconsumer]; exact hmem)
      exact hother.trans hbounds.1.le
    · rw [mem_singleton.mp hlast]

section

variable (h : s.Accounted first initial)

include h

/-- The bytes are given back and the event joins the batch, if it is new. -/
theorem Accounted.push (hconsumer : s.consumer = .received dropped events event) :
    { s with
      feed := s.feed.release event.bytes.length
      consumer := .draining dropped
        (if isNew s.cursor event then events ++ [event] else events) }.Accounted first initial := by
  refine { h with overtaken := ?_, received := ?_, reread := nofun }
  · intro k hk hnew hbehind
    refine (h.overtaken k hk hnew hbehind).imp_right fun hwill => ?_
    rw [hconsumer] at hwill
    rcases hwill with hmem | ⟨rfl, hisNew⟩ | hgap
    · left
      split
      · rw [map_append]
        exact mem_append_left _ hmem
      · exact hmem
    · left
      rw [if_pos hisNew]
      simp
    · exact .inr hgap
  · intro other hother
    have hreceived := h.received
    rw [hconsumer] at hreceived
    apply hreceived
    split at hother
    · exact hother
    · exact mem_append_left _ hother

theorem Accounted.finishCall (hconsumer : s.consumer = .draining dropped events) :
    (s.finishCall dropped events).Accounted first initial := by
  have hreceived : ∀ event ∈ events, event.seq ≤ s.taken := by
    have hreceived := h.received
    rwa [hconsumer] at hreceived
  have hovertaken : ∀ k, first ≤ k → ¬ Passed initial k → k ≤ s.taken →
      s.Told k ∨ k ∈ events.map seq ∨
        ∃ gap ∈ gapAfter s.cursor dropped, Covers gap k := by
    intro k hk hnew htaken
    have htold := h.overtaken k hk hnew htaken
    rwa [hconsumer] at htold
  unfold FeedState.finishCall
  dsimp only
  split
  next gap hgap =>
    refine { h with told := ?_, overtaken := ?_, received := nofun, reread := ?_ }
    · intro k hk hnew hpassed
      exact (h.told k hk hnew hpassed).mono (by simp) (by simp) (Subset.refl _)
    · intro k hk hnew htaken
      left
      rcases hovertaken k hk hnew htaken with htold | hmem | ⟨_, htold, hcovers⟩
      · exact htold.mono (by simp) (by simp) (Subset.refl _)
      · exact .inl (mem_append_right _ hmem)
      · cases hgap.symm.trans htold
        exact .inr (.inl ⟨gap, by simp, hcovers⟩)
    · rintro _ ⟨⟩
      refine ⟨gap, by simp, ?_⟩
      unfold gapAfter at hgap
      split at hgap <;> cases hgap
      rfl
  next hgap =>
    have htaken : ∀ k, first ≤ k → ¬ Passed initial k → k ≤ s.taken →
        { s with returned := s.returned ++ events.map seq }.Told k := by
      intro k hk hnew htaken
      rcases hovertaken k hk hnew htaken with htold | hmem | ⟨_, htold, -⟩
      · exact htold.mono (by simp) (Subset.refl _) (Subset.refl _)
      · exact .inl (mem_append_right _ hmem)
      · rw [hgap] at htold
        cases htold
    refine { h with told := ?_, overtaken := ?_, received := nofun, reread := nofun }
    · rintro k hk hnew ⟨c, hc, hle⟩
      rcases or_eq_some_iff.mp hc with hlast | ⟨-, hcursor⟩
      · obtain ⟨last, hget, rfl⟩ := map_eq_some_iff.mp hlast
        exact htaken k hk hnew (hle.trans (hreceived last (mem_of_getLast? hget)))
      · exact (h.told k hk hnew ⟨c, hcursor, hle⟩).mono (by simp) (Subset.refl _)
          (Subset.refl _)
    · exact fun k hk hnew hbehind => .inl (htaken k hk hnew hbehind)

/-- After a gap the consumer has read everything up to the cursor it goes on from. -/
theorem Accounted.resume (hfirst : 0 < first)
    (cursor : Nat) : (s.step (.resume cursor)).Accounted first initial := by
  unfold step
  dsimp only
  split
  next through hconsumer =>
    split
    · refine { h with told := ?_, overtaken := ?_, received := nofun, reread := nofun }
      · rintro k hk hnew ⟨_, ⟨⟩, hle⟩
        by_cases hpassed : Passed s.cursor k
        · refine (h.told k hk hnew hpassed).mono ?_ ?_ ?_ <;> simp
        by_cases hgap : k ≤ through
        · obtain ⟨_, hmem, rfl⟩ := h.reread through hconsumer
          have hexpected := expected_le (hfirst.trans_le hk) hpassed
          exact .inr (.inl ⟨_, hmem, hexpected, hgap⟩)
        · exact .inr (.inr ⟨(through + 1, cursor), by simp, not_le.mp hgap, hle⟩)
      · intro k hk hnew htaken
        have htold := h.overtaken k hk hnew htaken
        rw [hconsumer] at htold
        left
        refine (htold.resolve_right id).mono ?_ ?_ ?_ <;> simp
    · exact h
  · exact h

theorem Accounted.step {label : FeedLabel}
    (hfirst : 0 < first) (hsynced : label.Synced s) : (s.step label).Accounted first initial := by
  cases label with
  | publish bytes => exact h.publish bytes
  | publisher => exact h.publisherStep
  | resume cursor => exact h.resume hfirst cursor
  | consumer =>
    change s.consumerStep.Accounted first initial
    unfold consumerStep
    split
    next hidle => exact h.load hidle
    next dropped events hconsumer =>
      split
      · exact h.finishCall hconsumer
      next hchannel =>
        apply h.receive hfirst hconsumer hchannel
        exact hsynced dropped events hconsumer (by simp [hchannel])
    next hconsumer => exact h.push hconsumer
    · exact h

end

end FeedState

/-- In every interleaving in which no drop falls between the read of `dropped_through` and a
received event, the consumer has been told of every published number up to its cursor. -/
theorem feed_tells_every_loss {capacityBytes first : Nat} {initial : Option Nat}
    {labels : List FeedLabel} {s : FeedState} (hfirst : 0 < first)
    (hrun : Run FeedState.step (fun s label => label.Synced s)
      (.start capacityBytes first initial) labels s)
    (k : Nat) (hpublished : first ≤ k ∧ k < s.nextSeq) (hnew : ¬ Passed initial k)
    (hpassed : Passed s.cursor k) : s.Told k := by
  have hstart : (start capacityBytes first initial).Accounted first initial := by
    refine ⟨.nil, nofun, hfirst, nofun, nofun, ?_, ?_, ?_, nofun, nofun⟩
    · intro k hk hsettled _
      exact absurd hsettled (not_lt.mpr hk)
    · intro k hk hnew hpassed
      exact absurd hpassed hnew
    · intro k hk hnew htaken
      exact absurd (hfirst.trans_le hk) (not_lt.mpr htaken)
  have haccounted : s.Accounted first initial := by
    apply hrun.invariant (FeedState.Accounted first initial)
    · exact fun _ _ h hsynced => h.step hfirst hsynced
    · exact hstart
  exact haccounted.told k hpublished.1 hnew hpassed

def publishTwo : List FeedLabel :=
  [.publish [0, 0, 0, 0, 0], .publisher, .publisher, .publish [0], .publisher, .publisher]

def earlyDrop : List FeedLabel :=
  publishTwo ++ [.consumer, .consumer, .consumer, .consumer, .resume 2]

def lateDrop : List FeedLabel := [.consumer] ++ publishTwo ++ [.consumer, .consumer, .consumer]

/-- A drop before the read of `dropped_through` is told as a gap. -/
theorem early_drop_is_told : (earlyDrop.foldl FeedState.step (.start 4 1 none)).Told 1 := by
  obtain ⟨s, hrun⟩ : ∃ s, Run step (fun s label => label.Synced s) (.start 4 1 none)
      earlyDrop s := by
    refine ⟨_, .cons trivial (.cons trivial (.cons trivial (.cons trivial (.cons trivial
      (.cons trivial (.cons ?_ (.cons ?_ (.cons ?_ (.cons ?_ (.cons trivial (.nil _)))))))))))⟩
    · exact fun _ _ hconsumer => nomatch hconsumer
    · rintro _ _ ⟨⟩ _
      rfl
    · exact fun _ _ hconsumer => nomatch hconsumer
    · rintro _ _ ⟨⟩ hchannel
      exact absurd rfl hchannel
  obtain rfl := hrun.eq_foldl
  exact feed_tells_every_loss (by decide) hrun 1 (by decide +kernel) (by simp [Passed])
    ⟨2, by decide +kernel, by decide⟩

/-- The call receives the second entry and moves its cursor past the first one without a
word. -/
theorem late_drop_is_silent :
    ∃ s, Runs FeedState.step (.start 4 1 none) lateDrop s ∧
      1 < s.nextSeq ∧ Passed s.cursor 1 ∧ ¬ s.Told 1 ∧ s.consumer = .idle := by
  refine ⟨_, .cons trivial (.cons trivial (.cons trivial (.cons trivial (.cons trivial
    (.cons trivial (.cons trivial (.cons trivial (.cons trivial (.cons trivial
      (.nil _)))))))))), ?_⟩
  refine ⟨by decide +kernel, ⟨2, by decide +kernel, by decide⟩, ?_, by decide +kernel⟩
  rintro (hmem | ⟨_, hgap, -⟩ | ⟨_, hrange, -⟩)
  · revert hmem
    decide +kernel
  · cases hgap
  · cases hrange

end Bridget.Journal
