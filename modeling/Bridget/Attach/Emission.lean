import Bridget.Attach.Relay

/-!
# What a call for a fragment does

A queue of events is sent from its front: each call sends a part of the first event, which
leaves the queue with its last part.
-/

namespace Bridget.Attach

open Foundation Journal JournalLiveFeed

namespace FragmentQueue

variable (queue : FragmentQueue)

def numbers : List Nat :=
  (queue.pendingFragment.map Prod.fst).toList ++ queue.pendingEvents.map Prod.fst

def unsent : Nat :=
  (queue.pendingFragment.elim 0 fun pending => pending.2.1.length - pending.2.2) +
    (queue.pendingEvents.map fun event => event.2.length).sum

structure Whole (queue : FragmentQueue) : Prop where
  events : ∀ event ∈ queue.pendingEvents, event.2 ≠ []
  fragment : ∀ pending ∈ queue.pendingFragment, pending.2.2 < pending.2.1.length

variable {queue : FragmentQueue}

theorem whole_empty : (⟨[], none⟩ : FragmentQueue).Whole := ⟨nofun, nofun⟩

theorem numbers_eq_nil : queue.numbers = [] ↔ queue = ⟨[], none⟩ := by
  obtain ⟨_, fragment⟩ := queue
  cases fragment <;> simp [numbers]

@[simp] theorem numbers_takeUp : queue.takeUp.numbers = queue.numbers := by
  unfold takeUp
  split
  next hfragment hevents => simp [numbers, hfragment, hevents]
  · rfl

@[simp] theorem unsent_takeUp : queue.takeUp.unsent = queue.unsent := by
  unfold takeUp
  split
  next hfragment hevents => simp [unsent, hfragment, hevents]
  · rfl

theorem Whole.takeUp (h : queue.Whole) : queue.takeUp.Whole := by
  unfold FragmentQueue.takeUp
  split
  next seq bytes _ _ hevents =>
    have hevent := h.events (seq, bytes) (by simp [hevents])
    refine ⟨fun event hmem => h.events event (by simp [hevents, hmem]), ?_⟩
    rintro _ ⟨⟩
    exact List.length_pos_iff.mpr hevent
  · exact h

theorem takeUp_idle (h : queue.takeUp.pendingFragment = none) :
    queue.numbers = [] ∧ queue.takeUp = queue := by
  unfold takeUp at h ⊢
  split at h
  · cases h
  rename_i hnone
  refine ⟨numbers_eq_nil.mpr ?_, rfl⟩
  obtain ⟨events, _⟩ := queue
  cases h
  cases events with
  | nil => rfl
  | cons event rest => exact absurd rfl (hnone event.1 event.2 rest rfl)

inductive Emits (queue : FragmentQueue) : Emission → FragmentQueue → Prop
  | idle (h : queue.numbers = []) : Emits queue .idle queue
  | emptied {seq : Nat} {queue' : FragmentQueue} (hnumbers : queue.numbers = seq :: queue'.numbers)
      (hunsent : queue'.unsent = queue.unsent) (hshort : ¬ queue.Whole) :
      Emits queue (.emptied seq) queue'
  | fragment {fragment : Fragment} {rest : List Nat} {queue' : FragmentQueue}
      (hnumbers : queue.numbers = fragment.seq :: rest)
      (hnumbers' : queue'.numbers = if fragment.finalFragment then rest else queue.numbers)
      (hunsent : queue'.unsent < queue.unsent) (hwhole : queue.Whole → queue'.Whole) :
      Emits queue (.fragment fragment) queue'

theorem emitOne_emits (fits : Fragment → Bool) (queue : FragmentQueue) :
    queue.Emits (queue.emitOne fits).1 (queue.emitOne fits).2 := by
  unfold emitOne
  dsimp only
  split
  next hidle =>
    obtain ⟨hnumbers, htaken⟩ := takeUp_idle hidle
    rw [htaken]
    exact .idle hnumbers
  rename_i seq bytes offset hpending
  -- The event that is being sent is the first of the queue.
  have hnumbers : queue.numbers = seq :: queue.takeUp.pendingEvents.map Prod.fst := by
    rw [← numbers_takeUp, numbers, hpending]
    rfl
  have hunsent : queue.unsent = bytes.length - offset +
      (queue.takeUp.pendingEvents.map fun event => event.2.length).sum := by
    rw [← unsent_takeUp, unsent, hpending]
    rfl
  split
  next hdone =>
    refine .emptied ?_ ?_ ?_
    · rw [hnumbers]
      rfl
    · rw [hunsent, hdone]
      rfl
    · intro hwhole
      have hrest := hwhole.takeUp.fragment _ hpending
      dsimp only at hrest
      omega
  · have hmax : 1 ≤ min (bytes.length - offset) maxAttachFragmentBytes := by
      unfold maxAttachFragmentBytes
      omega
    generalize hlength : searchSize
      (fun candidate => fits (fragmentOf seq bytes offset candidate)) 1
      (min (bytes.length - offset) maxAttachFragmentBytes) = length
    have hlow : 1 ≤ length := hlength ▸ le_searchSize
    have hhigh : length ≤ bytes.length - offset :=
      hlength ▸ (searchSize_le hmax).trans (min_le_left _ _)
    refine .fragment hnumbers ?_ ?_ ?_
    · rw [hnumbers]
      by_cases hlast : length = bytes.length - offset
      · simp [numbers, fragmentOf, hlast]
      · simp [numbers, fragmentOf, hlast]
    · rw [hunsent]
      by_cases hlast : length = bytes.length - offset
      · simp only [unsent, hlast, if_true, Option.elim_none]
        omega
      · simp only [unsent, hlast, if_false, Option.elim_some]
        omega
    · intro hwhole
      refine ⟨hwhole.takeUp.events, ?_⟩
      intro _ hmem
      by_cases hlast : length = bytes.length - offset
      · simp [hlast] at hmem
      · simp only [hlast, if_false, Option.mem_some_iff] at hmem
        subst hmem
        dsimp only
        omega

end FragmentQueue

open FragmentQueue

namespace RelaySubscription

variable {s : RelaySubscription}

theorem emitOneFragment_cases (hwhole : s.Whole) :
    (s.numbers = [] ∧ s.emitOneFragment = (false, [], s)) ∨
      ∃ fragment queue, s.Emits (.fragment fragment) queue ∧ s.emitOneFragment =
          (true, [.journalFragment s.subscriptionId fragment],
            { s with
              toFragmentQueue := queue
              throughSeq := if fragment.finalFragment then some fragment.seq
                else s.throughSeq }) := by
  have hemits := s.toFragmentQueue.emitOne_emits (fitsFrame s.subscriptionId)
  unfold emitOneFragment
  generalize s.toFragmentQueue.emitOne (fitsFrame s.subscriptionId) = emitted at hemits ⊢
  obtain ⟨emission, queue⟩ := emitted
  cases emission with
  | idle =>
    cases hemits with
    | idle h => exact .inl ⟨h, rfl⟩
  | emptied =>
    cases hemits with
    | emptied _ _ hshort => exact absurd hwhole hshort
  | fragment fragment => exact .inr ⟨fragment, queue, hemits, rfl⟩

end RelaySubscription

namespace LiveFanout

variable (fanout : LiveFanout)

theorem emitOneLiveFragment_cases :
    (∃ queue, queue.unsent = fanout.unsent ∧
        fanout.emitOneLiveFragment = (false, [], { fanout with toFragmentQueue := queue })) ∨
      ∃ fragment queue, queue.unsent < fanout.unsent ∧ fanout.emitOneLiveFragment =
        (true, [.liveJournalFragment fragment], { fanout with toFragmentQueue := queue }) := by
  have hemits := fanout.toFragmentQueue.emitOne_emits fitsLiveFrame
  unfold emitOneLiveFragment
  generalize fanout.toFragmentQueue.emitOne fitsLiveFrame = emitted at hemits ⊢
  obtain ⟨_, queue⟩ := emitted
  cases hemits with
  | idle => exact .inl ⟨_, rfl, rfl⟩
  | emptied _ hunsent => exact .inl ⟨queue, hunsent, rfl⟩
  | fragment _ _ hunsent => exact .inr ⟨_, queue, hunsent, rfl⟩

/-- The cursor of the fanout after a batch is at its last event, if it has one. -/
theorem queueEvents_eq (fanout : LiveFanout) (events : List JournalLiveEvent) :
    fanout.queueEvents events =
      { fanout with
        cursor := (events.getLast?.map JournalLiveEvent.seq).or fanout.cursor
        pendingEvents := fanout.pendingEvents ++
          events.map fun event => (event.seq, event.bytes) } := by
  induction events generalizing fanout with
  | nil => simp [queueEvents]
  | cons _ rest ih =>
    rw [queueEvents, ih, List.getLast?_cons, List.map_cons, List.append_assoc]
    cases rest.getLast? <;> rfl

end LiveFanout

namespace Relay

variable {Value : Type} {relay : Relay}

theorem numbers_fanoutInUse (h : relay.fanout.numbers = []) : relay.fanoutInUse.numbers = [] := by
  unfold fanoutInUse
  split
  · exact h
  · rfl

end Relay

end Bridget.Attach
