import Bridget.Threads.Writes

/-!
# What the operations do to alerts

A reservation freezes an alert and a settlement thaws it. Every other operation creates alerts, or
leaves their generation, their frozen bound and what was dispatched alone.
-/

namespace Bridget.Threads

open Foundation Table

def WakeState.Frozen (state : WakeState) : Prop := state = .inFlight ∨ state = .outcomeUnknown

/-- The bound of a delivery is kept exactly as long as the delivery may be under way. -/
def WakeRow.Consistent (w : WakeRow) : Prop := w.activeThroughSeq.isSome ↔ w.state.Frozen

/-- A change that no delivery notices. -/
structure WakeRow.Quiet (w w' : WakeRow) : Prop where
  key : w'.key = w.key
  generation : w'.generation = w.generation
  active : w'.activeThroughSeq = w.activeThroughSeq
  dispatched : w'.dispatchedSeq = w.dispatchedSeq
  pending : w.pendingSeq ≤ w'.pendingSeq
  consistent : w.Consistent → w'.Consistent

/-- An alert that was never reserved. -/
structure WakeRow.Unused (w : WakeRow) : Prop where
  active : w.activeThroughSeq = none
  consistent : w.Consistent

namespace WakeRow

variable {w w' w'' : WakeRow}

theorem Quiet.refl (w : WakeRow) : w.Quiet w := ⟨rfl, rfl, rfl, rfl, le_rfl, id⟩

theorem Quiet.trans (h : w.Quiet w') (h' : w'.Quiet w'') : w.Quiet w'' where
  key := h'.key.trans h.key
  generation := h'.generation.trans h.generation
  active := h'.active.trans h.active
  dispatched := h'.dispatched.trans h.dispatched
  pending := h.pending.trans h'.pending
  consistent hw := h'.consistent (h.consistent hw)

theorem Unused.quiet (h : w.Unused) (hquiet : w.Quiet w') : w'.Unused where
  active := hquiet.active.trans h.active
  consistent := hquiet.consistent h.consistent

theorem consistent_of_thawed (hactive : w.activeThroughSeq = none) (hstate : ¬ w.state.Frozen) :
    w.Consistent := by
  simp [Consistent, hactive, hstate]

/-- A row that is not frozen may be given a state, a reason and the time of a try. -/
theorem quiet_of_thawed {state : WakeState} {reason : Option String}
    {tried : Option Int} (hactive : w.activeThroughSeq = none) (hstate : ¬ state.Frozen) :
    w.Quiet { w with state, reason, lastAttemptAt := tried } where
  key := rfl
  generation := rfl
  active := rfl
  dispatched := rfl
  pending := le_rfl
  consistent _ := consistent_of_thawed hactive hstate

end WakeRow

namespace ThreadStore

/-- Alerts are created and changed without any delivery noticing. -/
structure KeepsDeliveries (s s' : ThreadStore) : Prop where
  kept : ∀ w ∈ s.wakes, ∃ w' ∈ s'.wakes, w.Quiet w'
  origin : ∀ w' ∈ s'.wakes, (∃ w ∈ s.wakes, w.Quiet w') ∨
    w'.Unused ∧ ∀ w ∈ s.wakes, w.key ≠ w'.key

variable {s s' s'' : ThreadStore} {threadId agentId : String}

theorem eq_of_wake_key {a b : WakeRow} (ha : a ∈ s.wakes) (hb : b ∈ s.wakes)
    (hkey : a.key = b.key) : a = b :=
  eq_of_conflicts ha hb (.inl hkey)

theorem KeepsDeliveries.of_eq (h : s'.wakes = s.wakes) : KeepsDeliveries s s' where
  kept w hw := ⟨w, h ▸ hw, .refl w⟩
  origin w hw := .inl ⟨w, h ▸ hw, .refl w⟩

theorem KeepsDeliveries.trans (h : KeepsDeliveries s s') (h' : KeepsDeliveries s' s'') :
    KeepsDeliveries s s'' where
  kept w hw := by
    obtain ⟨w', hw', hquiet⟩ := h.kept w hw
    obtain ⟨w'', hw'', hquiet'⟩ := h'.kept w' hw'
    exact ⟨w'', hw'', hquiet.trans hquiet'⟩
  origin w'' hw'' := by
    rcases h'.origin w'' hw'' with ⟨w', hw', hquiet'⟩ | ⟨hunused, hfresh⟩
    · rcases h.origin w' hw' with ⟨w, hw, hquiet⟩ | ⟨hunused, hfresh⟩
      · exact .inl ⟨w, hw, hquiet.trans hquiet'⟩
      · refine .inr ⟨hunused.quiet hquiet', fun w hw => ?_⟩
        rw [hquiet'.key]
        exact hfresh w hw
    · refine .inr ⟨hunused, fun w hw => ?_⟩
      obtain ⟨w', hw', hquiet⟩ := h.kept w hw
      rw [← hquiet.key]
      exact hfresh w' hw'

/-- An `UPDATE` that changes each row quietly. -/
theorem KeepsDeliveries.of_update {p : WakeRow → Bool} {f : WakeRow → WakeRow} {n : Nat}
    (h : s.wakes.update p f = .ok (s'.wakes, n))
    (hquiet : ∀ w ∈ s.wakes, p w = true → w.Quiet (f w)) : KeepsDeliveries s s' := by
  have hrewrite : ∀ w ∈ s.wakes, w.Quiet (rewrite p f w) := by
    intro w hw
    unfold rewrite
    split
    next hp => exact hquiet w hw hp
    · exact .refl w
  constructor
  · intro w hw
    exact ⟨_, (mem_update h).mpr ⟨w, hw, rfl⟩, hrewrite w hw⟩
  · intro _ hw'
    obtain ⟨w, hw, rfl⟩ := (mem_update h).mp hw'
    exact .inl ⟨w, hw, hrewrite w hw⟩

theorem raiseWake_keeps {seq : Nat} (h : s.raiseWake threadId agentId seq = .ok s') :
    KeepsDeliveries s s' := by
  unfold raiseWake at h
  split at h
  next hnone =>
    simp only [ok_iff, sqlite_eq_ok] at h
    obtain ⟨_, hinsert, rfl⟩ := h
    constructor
    · intro w hw
      exact ⟨w, (mem_insert hinsert).mpr (.inl hw), .refl w⟩
    intro w' hw'
    rcases (mem_insert hinsert).mp hw' with hw' | rfl
    · exact .inl ⟨w', hw', .refl w'⟩
    · refine .inr ⟨⟨rfl, WakeRow.consistent_of_thawed rfl (by simp [WakeState.Frozen])⟩, ?_⟩
      intro w hw
      exact of_decide_eq_false (find?_eq_none.mp hnone w hw)
  · simp only [ok_iff, sqlite_eq_ok, pair_iff] at h
    obtain ⟨_, _, hupdate, rfl⟩ := h
    apply KeepsDeliveries.of_update hupdate
    intro w _ _
    refine ⟨rfl, rfl, rfl, rfl, le_max_left _ _, fun hw => ?_⟩
    -- a frozen delivery keeps its state
    cases hactive : w.activeThroughSeq with
    | none => exact WakeRow.consistent_of_thawed rfl (by simp [WakeState.Frozen])
    | some => simpa [WakeRow.Consistent, hactive] using hw

variable {p : WakeRow → Bool} {f : WakeRow → WakeRow} {one : Bool} {generation : Nat}
  {outcome : WakeOutcome}

/-- An update within one alert changes nothing, or that alert. -/
theorem updateWakes_pinned {key : String × String} (hkey : ∀ w, p w = true → w.key = key)
    (h : s.updateWakes p f = .ok (one, s')) :
    one = false ∧ s' = s ∨ one = true ∧ ∃ w ∈ s.wakes, p w = true ∧
      ∀ w', w' ∈ s'.wakes ↔ w' = f w ∨ w' ≠ w ∧ w' ∈ s.wakes := by
  simp only [updateWakes, ok_iff, sqlite_eq_ok, pair_iff] at h
  obtain ⟨_, _, hupdate, rfl, rfl⟩ := h
  have hpins : PinsKey fun w : WakeRow => decide (w.key = key) := by
    intro _ _ ha hb
    exact .inl ((of_decide_eq_true ha).trans (of_decide_eq_true hb).symm)
  rcases update_pinned hpins (fun w hp => decide_eq_true (hkey w hp)) hupdate with
    ⟨rfl, rfl⟩ | ⟨rfl, w, hw, hp, hmem⟩
  · exact .inl ⟨rfl, rfl⟩
  · exact .inr ⟨rfl, w, hw, hp, hmem⟩

theorem threadWakeReserve_cases {reservation : WakeReservation} {now : Int}
    (h : s.threadWakeReserve reservation now = .ok (one, s')) :
    one = false ∧ s' = s ∨ one = true ∧ ∃ w ∈ s.wakes,
      w.key = (reservation.threadId, reservation.agentId) ∧
      w.generation = reservation.expectedGeneration ∧
      ∀ w', w' ∈ s'.wakes ↔ w' = freezeWake reservation now w ∨ w' ≠ w ∧ w' ∈ s.wakes := by
  rcases updateWakes_pinned (fun w hp => (of_decide_eq_true hp).1) h with hsame |
    ⟨rfl, w, hw, hp, hmem⟩
  · exact .inl hsame
  · obtain ⟨hkey, hgeneration, -⟩ := of_decide_eq_true hp
    exact .inr ⟨rfl, w, hw, hkey, hgeneration, hmem⟩

/-- What an outcome makes of the row of its alert. -/
def settleWake (w : WakeRow) : WakeOutcome → WakeRow
  | .dispatched => { thawWake w with
      dispatchedSeq := max w.dispatchedSeq (w.activeThroughSeq.getD 0)
      state := .dispatched
      reason := none }
  | .refused reason => { thawWake w with
      state := .refused, reason := some reason, deliveryId := none }
  | .outcomeUnknown => { w with state := .outcomeUnknown }

theorem threadWakeSettle_cases
    (h : s.threadWakeSettle threadId agentId generation outcome = .ok (one, s')) :
    one = false ∧ s' = s ∨ one = true ∧ ∃ w ∈ s.wakes, w.key = (threadId, agentId) ∧
      w.generation = generation ∧ w.state.Frozen ∧
      ∀ w', w' ∈ s'.wakes ↔ w' = settleWake w outcome ∨ w' ≠ w ∧ w' ∈ s.wakes := by
  cases outcome
  all_goals
    rcases updateWakes_pinned (fun w hp => (of_decide_eq_true hp).1) h with hsame |
      ⟨rfl, w, hw, hp, hmem⟩
    · exact .inl hsame
    obtain ⟨hkey, hgeneration, hstate⟩ := of_decide_eq_true hp
    exact .inr ⟨rfl, w, hw, hkey, hgeneration, by simp_all [WakeState.Frozen], hmem⟩

/-- The outcome of another generation is ignored. -/
theorem threadWakeSettle_other
    (h : ∀ w ∈ s.wakes, w.key = (threadId, agentId) → w.generation ≠ generation) :
    s.threadWakeSettle threadId agentId generation outcome = .ok (false, s) := by
  cases outcome
  all_goals
    refine (congrArg (sqlite · >>= _) (update_eq_self fun w hw => ?_)).trans rfl
    apply decide_eq_false
    rintro ⟨hkey, hgeneration, -⟩
    exact h w hw hkey hgeneration

end ThreadStore

def ThreadOp.delivers : ThreadOp → Bool
  | .wakeReserve .. | .wakeSettle .. => true
  | _ => false

end Bridget.Threads
