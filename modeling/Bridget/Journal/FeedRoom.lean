import Bridget.Journal.LiveFeed

/-!
# The room of the live feed

Bytes are reserved before an event is sent, and given back when the event is taken out or could
not be sent. At every moment the counter holds the bytes that are on their way: no release takes it
below zero, and the channel stays within its capacity.
-/

namespace Bridget.Journal

open Foundation JournalLiveFeed

/-- The bytes that the publisher has reserved and neither sent nor given back. -/
def Publisher.reserved : Publisher → Nat
  | .sending event | .releasing event => event.bytes.length
  | _ => 0

/-- The bytes of an event that was taken out and is still counted. -/
def Consumer.unreleased : Consumer → Nat
  | .received _ _ event => event.bytes.length
  | _ => 0

namespace FeedState

/-- The counter holds what is on its way, within the capacity. -/
structure InRoom (capacityBytes : Nat) (s : FeedState) : Prop where
  capacity : s.feed.capacityBytes = capacityBytes
  counted : s.feed.queuedBytes = (s.feed.channel.map fun event => event.bytes.length).sum +
    s.publisher.reserved + s.consumer.unreleased
  bounded : s.feed.queuedBytes ≤ capacityBytes
  short : s.feed.channel.length ≤ writerQueueCapacity

variable {capacityBytes : Nat} {s : FeedState} (h : s.InRoom capacityBytes)

include h

theorem InRoom.publisherStep : s.publisherStep.InRoom capacityBytes := by
  obtain ⟨hcapacity, hcounted, hbounded, hshort⟩ := id h
  unfold FeedState.publisherStep
  cases hpublisher : s.publisher <;> rw [hpublisher] at hcounted
  case idle => exact h
  case reserving event =>
    by_cases hfits : s.feed.queuedBytes + event.bytes.length ≤ s.feed.capacityBytes
    · simp only [reserve, hfits, if_true]
      refine ⟨hcapacity, ?_, hcapacity ▸ hfits, hshort⟩
      simp only [hcounted, Publisher.reserved]
      omega
    · simp only [reserve, hfits, if_false]
      exact { h with counted := hcounted }
  case sending =>
    by_cases hroom : s.feed.channel.length < writerQueueCapacity
    · simp only [trySend, hroom, if_true]
      refine ⟨hcapacity, ?_, hbounded, by simpa using hroom⟩
      simp only [hcounted, Publisher.reserved, List.map_append, List.sum_append, List.map_cons,
        List.map_nil, List.sum_singleton]
      omega
    · simp only [trySend, hroom, if_false]
      exact { h with counted := hcounted }
  case releasing =>
    refine ⟨hcapacity, ?_, le_trans (Nat.sub_le _ _) hbounded, hshort⟩
    simp only [release, hcounted, Publisher.reserved]
    omega
  case reloading => exact { h with counted := hcounted }
  case marking => exact { h with counted := hcounted }

theorem InRoom.consumerStep : s.consumerStep.InRoom capacityBytes := by
  obtain ⟨hcapacity, hcounted, hbounded, hshort⟩ := id h
  unfold FeedState.consumerStep
  cases hconsumer : s.consumer <;> rw [hconsumer] at hcounted
  case idle => exact { h with counted := hcounted }
  case draining =>
    cases hchannel : s.feed.channel with
    | nil =>
      dsimp only [FeedState.finishCall]
      split <;> exact { h with counted := hcounted }
    | cons event =>
      -- the event leaves the channel before its bytes are given back
      rw [hchannel] at hcounted hshort
      refine ⟨hcapacity, ?_, hbounded, Nat.le_of_succ_le hshort⟩
      simp only [hcounted, List.map_cons, List.sum_cons, Consumer.unreleased]
      omega
  case received =>
    refine ⟨hcapacity, ?_, le_trans (Nat.sub_le _ _) hbounded, hshort⟩
    simp only [release, hcounted, Consumer.unreleased]
    omega
  case rereading => exact h

theorem InRoom.step (label : FeedLabel) : (s.step label).InRoom capacityBytes := by
  have hcounted := h.counted
  cases label with
  | publisher => exact h.publisherStep
  | consumer => exact h.consumerStep
  | publish =>
    by_cases hidle : s.publisher = .idle
    · rw [hidle] at hcounted
      simp only [FeedState.step, hidle, if_true]
      exact { h with counted := hcounted }
    · simpa only [FeedState.step, hidle, if_false] using h
  | resume cursor =>
    unfold FeedState.step
    cases hconsumer : s.consumer <;> rw [hconsumer] at hcounted
    case rereading through =>
      by_cases hpast : through ≤ cursor
      · simp only [hpast, if_true]
        exact { h with counted := hcounted }
      · simpa only [hpast, if_false] using h
    all_goals exact h

omit h

/-- In every interleaving of the two parties the counter of queued bytes is exact. -/
theorem live_feed_stays_in_room (capacityBytes first : Nat) (cursor : Option Nat)
    (labels : List FeedLabel) :
    (labels.foldl FeedState.step (.start capacityBytes first cursor)).InRoom capacityBytes := by
  refine List.foldlRecOn labels _ ?_ fun _ h label _ => h.step label
  exact ⟨rfl, rfl, Nat.zero_le _, Nat.zero_le _⟩

end FeedState

end Bridget.Journal
