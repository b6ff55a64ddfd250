import Bridget.Foundation.Run
import Bridget.Threads.Steps

/-!
# Alerts over whole runs

Candidates are selected at one time and reserved at another, possibly much later. The candidates
that were offered and the reservations that succeeded are kept beside the store.
-/

namespace Bridget.Threads

open Foundation ThreadStore List

/-- A reservation that succeeded, and whether its delivery was refused. -/
structure Reserved where
  key : String × String
  (generation throughSeq : Nat)
  refused : Bool

def ThreadStore.WakeCandidate.key (c : WakeCandidate) : String × String := (c.threadId, c.agentId)

/-- What the reservation takes up. -/
def ThreadStore.WakeReservation.candidate (r : WakeReservation) : WakeCandidate :=
  ⟨r.threadId, r.agentId, r.throughSeq, r.expectedGeneration⟩

/-- The store, the candidates that were ever offered, and the reservations in their order. -/
structure AlertLog where
  store : ThreadStore
  offered : List WakeCandidate
  reserved : List Reserved

inductive AlertEvent where
  | candidates (now : Int) (batch : Nat)
  | op (op : ThreadOp)

def Reserved.refuse (key : String × String) (generation : Nat) (r : Reserved) : Reserved :=
  if r.key = key ∧ r.generation = generation then { r with refused := true } else r

namespace AlertLog

def start : AlertLog := ⟨.init, [], []⟩

/-- What a reservation or an outcome that took effect adds to the history. -/
def note (reserved : List Reserved) : ThreadOp → List Reserved
  | .wakeReserve reservation _ =>
    reserved ++ [⟨(reservation.threadId, reservation.agentId), reservation.expectedGeneration + 1,
      reservation.throughSeq, false⟩]
  | .wakeSettle threadId agentId generation (.refused _) =>
    reserved.map (Reserved.refuse (threadId, agentId) generation)
  | _ => reserved

def step (size : PageEntry → Nat) (log : AlertLog) : AlertEvent → AlertLog
  | .candidates now batch =>
    { log with offered := log.store.threadWakeCandidates now batch ++ log.offered }
  | .op op =>
    match log.store.exec size op with
    | .ok (.changed true, store) => { log with store, reserved := note log.reserved op }
    | .ok (_, store) => { log with store }
    | .error _ => log

/-- A reservation is made for a candidate that was offered at some time before. -/
def Admitted (log : AlertLog) : AlertEvent → Prop
  | .op (.wakeReserve reservation _) => reservation.candidate ∈ log.offered
  | _ => True

instance (log : AlertLog) : (event : AlertEvent) → Decidable (log.Admitted event)
  | .op (.wakeReserve reservation _) =>
    inferInstanceAs (Decidable (reservation.candidate ∈ log.offered))
  | .candidates .. | .op (.create _) | .op (.addMembers _) | .op (.post ..) | .op (.close _)
  | .op (.read _) | .op (.ack ..) | .op (.wakeDefer ..) | .op (.wakeSettle ..)
  | .op (.wakesExpire _) | .op (.sleep _) => .isTrue trivial

/-- A reservation whose delivery was not refused is covered: it was dispatched, or it is the frozen
one, or a later entry is pending. -/
def Covers (w : WakeRow) (r : Reserved) : Prop :=
  r.throughSeq ≤ w.dispatchedSeq ∨
    w.activeThroughSeq = some r.throughSeq ∧ r.generation = w.generation ∨
    r.throughSeq < w.pendingSeq

structure Sound (log : AlertLog) : Prop where
  consistent : ∀ w ∈ log.store.wakes, w.Consistent
  covered : ∀ r ∈ log.reserved, ∃ w ∈ log.store.wakes, w.key = r.key ∧
    (r.refused = false → Covers w r)
  offered : ∀ c ∈ log.offered, ∃ w ∈ log.store.wakes, w.key = c.key ∧
    c.generation ≤ w.generation ∧ c.pendingSeq ≤ w.pendingSeq ∧
    (c.generation = w.generation → ∀ r ∈ log.reserved, r.key = c.key → r.refused = false →
      r.throughSeq < c.pendingSeq)
  ordered : log.reserved.Pairwise fun g h =>
    g.key = h.key → g.refused = false → g.throughSeq < h.throughSeq

variable {size : PageEntry → Nat} {log : AlertLog} {store : ThreadStore} {w w' : WakeRow}
  {r : Reserved}

theorem sound_start : start.Sound where
  consistent _ hw := absurd hw Table.not_mem_empty
  covered _ hr := absurd hr not_mem_nil
  offered _ hc := absurd hc not_mem_nil
  ordered := .nil

theorem Covers.quiet (h : Covers w r) (hquiet : w.Quiet w') : Covers w' r := by
  unfold Covers
  rw [hquiet.dispatched, hquiet.active, hquiet.generation]
  have hpending := hquiet.pending
  rcases h with h | h | h
  · exact .inl h
  · exact .inr (.inl h)
  · exact .inr (.inr (h.trans_le hpending))

theorem Sound.keep (h : log.Sound) (hkeeps : log.store.KeepsDeliveries store) :
    Sound { log with store } where
  consistent w' hw' := by
    rcases hkeeps.origin w' hw' with ⟨w, hw, hquiet⟩ | ⟨hunused, -⟩
    · exact hquiet.consistent (h.consistent w hw)
    · exact hunused.consistent
  covered r hr := by
    obtain ⟨w, hw, hkey, hcovers⟩ := h.covered r hr
    obtain ⟨w', hw', hquiet⟩ := hkeeps.kept w hw
    exact ⟨w', hw', hquiet.key.trans hkey, fun hrefused => (hcovers hrefused).quiet hquiet⟩
  offered c hc := by
    obtain ⟨w, hw, hkey, _, hpending, _⟩ := h.offered c hc
    obtain ⟨w', hw', hquiet⟩ := hkeeps.kept w hw
    refine ⟨w', hw', hquiet.key.trans hkey, ?_, hpending.trans hquiet.pending, ?_⟩
    · rwa [hquiet.generation]
    · rwa [hquiet.generation]
  ordered := h.ordered

/-- A candidate announces more than any delivery that was not refused. -/
theorem Sound.beyond (h : log.Sound) {now : Int} (hw : w ∈ log.store.wakes)
    (hcandidate : log.store.isWakeCandidate now w = true) (hr : r ∈ log.reserved)
    (hkey : r.key = w.key) (hrefused : r.refused = false) : r.throughSeq < w.pendingSeq := by
  obtain ⟨_, hw', hkey', hcovers⟩ := h.covered r hr
  cases eq_of_wake_key hw' hw (hkey'.trans hkey)
  unfold isWakeCandidate at hcandidate
  split at hcandidate
  · simp only [test_iff] at hcandidate
    obtain ⟨⟨-, hpending⟩, hactive⟩ := hcandidate
    rcases hcovers hrefused with hdispatched | ⟨hfrozen, -⟩ | hlater
    · exact lt_of_le_of_lt (hdispatched.trans (le_max_right _ _)) hpending
    · rw [hfrozen] at hactive
      simp only [test_iff] at hactive
      exact hactive.2
    · exact hlater
  · cases hcandidate

theorem Sound.candidates (h : log.Sound) (now : Int) (batch : Nat) :
    Sound { log with offered := log.store.threadWakeCandidates now batch ++ log.offered } where
  consistent := h.consistent
  covered := h.covered
  offered c hc := by
    rcases mem_append.mp hc with hnew | hold
    · obtain ⟨w, hw, rfl⟩ := mem_map.mp hnew
      obtain ⟨hw, hcandidate⟩ := Table.mem_select.mp ((mem_insertionSort _).mp (mem_of_mem_take hw))
      refine ⟨w, hw, rfl, le_rfl, le_rfl, fun _ _ hr hkey hrefused => ?_⟩
      exact h.beyond hw hcandidate hr hkey hrefused
    · exact h.offered c hold
  ordered := h.ordered

def Replaces (s s' : ThreadStore) (w w₁ : WakeRow) : Prop :=
  ∀ w', w' ∈ s'.wakes ↔ w' = w₁ ∨ w' ≠ w ∧ w' ∈ s.wakes

variable {w₁ : WakeRow}

theorem Replaces.image (h : Replaces log.store store w w₁) (hkey : w₁.key = w.key)
    (hw : w ∈ log.store.wakes) (hw' : w' ∈ log.store.wakes) :
    w' = w ∧ w₁ ∈ store.wakes ∧ w₁.key = w'.key ∨ w'.key ≠ w.key ∧ w' ∈ store.wakes := by
  by_cases hsame : w' = w
  · exact .inl ⟨hsame, (h w₁).mpr (.inl rfl), by rw [hkey, hsame]⟩
  · refine .inr ⟨fun hkeys => hsame (eq_of_wake_key hw' hw hkeys), ?_⟩
    exact (h w').mpr (.inr ⟨hsame, hw'⟩)

/-- A reservation announces more than every delivery before it that was not refused. -/
theorem Sound.reserve (h : log.Sound) {reservation : WakeReservation} {now : Int}
    (hoffered : reservation.candidate ∈ log.offered)
    (hw : w ∈ log.store.wakes) (hkey : w.key = (reservation.threadId, reservation.agentId))
    (hgeneration : w.generation = reservation.expectedGeneration)
    (hrows : Replaces log.store store w (freezeWake reservation now w)) :
    Sound { log with store, reserved := note log.reserved (.wakeReserve reservation now) } := by
  obtain ⟨_, hrow, hrowKey, -, hpending, hbeyond⟩ := h.offered _ hoffered
  cases eq_of_wake_key hrow hw (hrowKey.trans hkey.symm)
  have hahead : ∀ r ∈ log.reserved, r.key = w.key → r.refused = false →
      r.throughSeq < reservation.throughSeq := by
    intro r hr hrkey hrefused
    exact hbeyond hgeneration.symm r hr (hrkey.trans hkey) hrefused
  have himage := fun {x} (hx : x ∈ log.store.wakes) => hrows.image rfl hw hx
  refine ⟨?_, ?_, ?_, ?_⟩
  · intro x hx
    rcases (hrows x).mp hx with rfl | ⟨-, hx⟩
    · simp [WakeRow.Consistent, WakeState.Frozen, freezeWake]
    · exact h.consistent x hx
  · intro r hr
    rcases mem_append.mp hr with hold | hnew
    · obtain ⟨x, hx, hxkey, hcovers⟩ := h.covered r hold
      rcases himage hx with ⟨rfl, hfrozen, hfrozenKey⟩ | ⟨-, hx'⟩
      · refine ⟨_, hfrozen, hfrozenKey.trans hxkey, fun hrefused => .inr (.inr ?_)⟩
        exact (hahead r hold hxkey.symm hrefused).trans_le hpending
      · exact ⟨x, hx', hxkey, hcovers⟩
    · obtain rfl := mem_singleton.mp hnew
      refine ⟨_, (hrows _).mpr (.inl rfl), hkey, fun _ => .inr (.inl ⟨rfl, ?_⟩)⟩
      exact congrArg (· + 1) hgeneration.symm
  · intro c hc
    obtain ⟨x, hx, hxkey, hle, hcpending, hcbeyond⟩ := h.offered c hc
    rcases himage hx with ⟨rfl, hfrozen, hfrozenKey⟩ | ⟨hother, hx'⟩
    · -- the generation has moved on
      refine ⟨_, hfrozen, hfrozenKey.trans hxkey, Nat.le_succ_of_le hle, hcpending, ?_⟩
      intro hsame
      exact absurd hsame (Nat.lt_succ_of_le hle).ne
    refine ⟨x, hx', hxkey, hle, hcpending, fun hsame r hr hrkey hrefused => ?_⟩
    rcases mem_append.mp hr with hold | hnew
    · exact hcbeyond hsame r hold hrkey hrefused
    · obtain rfl := mem_singleton.mp hnew
      exact absurd (hxkey.trans (hrkey.symm.trans hkey.symm)) hother
  · refine pairwise_append.mpr ⟨h.ordered, pairwise_singleton _ _, ?_⟩
    intro g hg r hr hgkey hrefused
    obtain rfl := mem_singleton.mp hr
    exact hahead g hg (hgkey.trans hkey.symm) hrefused

/-- The history with some deliveries marked as refused. -/
structure Marks (mark : Reserved → Reserved) : Prop where
  key : ∀ r, (mark r).key = r.key
  generation : ∀ r, (mark r).generation = r.generation
  throughSeq : ∀ r, (mark r).throughSeq = r.throughSeq
  refused : ∀ r, (mark r).refused = false → r.refused = false

/-- An outcome changes one row, and may mark deliveries as refused. -/
theorem Sound.settle (h : log.Sound) {mark : Reserved → Reserved} (hmark : Marks mark)
    (hw : w ∈ log.store.wakes) (hrows : Replaces log.store store w w₁) (hkey : w₁.key = w.key)
    (hgeneration : w₁.generation = w.generation) (hpending : w₁.pendingSeq = w.pendingSeq)
    (hconsistent : w₁.Consistent)
    (hcovers : ∀ r, r.key = w.key → (mark r).refused = false → Covers w r → Covers w₁ r) :
    Sound { log with store, reserved := log.reserved.map mark } := by
  have himage := fun {x} (hx : x ∈ log.store.wakes) => hrows.image hkey hw hx
  have hsameCover : ∀ {x r}, Covers x r → Covers x (mark r) := by
    intro x r hcover
    unfold Covers
    rwa [hmark.throughSeq, hmark.generation]
  refine ⟨?_, ?_, ?_, ?_⟩
  · intro x hx
    rcases (hrows x).mp hx with rfl | ⟨-, hx⟩
    · exact hconsistent
    · exact h.consistent x hx
  · intro r' hr'
    obtain ⟨r, hr, rfl⟩ := mem_map.mp hr'
    obtain ⟨x, hx, hxkey, hcover⟩ := h.covered r hr
    rcases himage hx with ⟨rfl, hsettled, hsettledKey⟩ | ⟨-, hx'⟩
    · refine ⟨w₁, hsettled, hsettledKey.trans (hxkey.trans (hmark.key r).symm), fun hrefused => ?_⟩
      exact hsameCover (hcovers r hxkey.symm hrefused (hcover (hmark.refused r hrefused)))
    · refine ⟨x, hx', hxkey.trans (hmark.key r).symm, fun hrefused => ?_⟩
      exact hsameCover (hcover (hmark.refused r hrefused))
  · intro c hc
    obtain ⟨x, hx, hxkey, hle, hcpending, hcbeyond⟩ := h.offered c hc
    have hbeyond : c.generation = x.generation → ∀ r ∈ log.reserved.map mark, r.key = c.key →
        r.refused = false → r.throughSeq < c.pendingSeq := by
      intro hsame r' hr' hrkey hrefused
      obtain ⟨r, hr, rfl⟩ := mem_map.mp hr'
      rw [hmark.key] at hrkey
      rw [hmark.throughSeq]
      exact hcbeyond hsame r hr hrkey (hmark.refused r hrefused)
    rcases himage hx with ⟨rfl, hsettled, hsettledKey⟩ | ⟨-, hx'⟩
    · refine ⟨w₁, hsettled, hsettledKey.trans hxkey, ?_, ?_, ?_⟩
      · rwa [hgeneration]
      · rwa [hpending]
      · rwa [hgeneration]
    · exact ⟨x, hx', hxkey, hle, hcpending, hbeyond⟩
  · refine pairwise_map.mpr (h.ordered.imp ?_)
    intro g _ horder hgkey hrefused
    rw [hmark.key, hmark.key] at hgkey
    rw [hmark.throughSeq, hmark.throughSeq]
    exact horder hgkey (hmark.refused g hrefused)

theorem marks_id : Marks id := ⟨fun _ => rfl, fun _ => rfl, fun _ => rfl, fun _ => id⟩

theorem marks_refuse (key : String × String) (generation : Nat) :
    Marks (Reserved.refuse key generation) := by
  constructor
  all_goals
    intro _
    unfold Reserved.refuse
    split
  all_goals simp

theorem Sound.outcome (h : log.Sound) {threadId agentId : String} {generation : Nat}
    {outcome : WakeOutcome} (hw : w ∈ log.store.wakes) (hkey : w.key = (threadId, agentId))
    (hgeneration : w.generation = generation) (hfrozen : w.state.Frozen)
    (hrows : Replaces log.store store w (settleWake w outcome)) :
    Sound { log with
      store, reserved := note log.reserved (.wakeSettle threadId agentId generation outcome) } := by
  have hactive := (h.consistent w hw).mpr hfrozen
  cases outcome with
  | dispatched =>
    simp only [note]
    rw [← map_id log.reserved]
    refine h.settle marks_id hw hrows rfl rfl rfl ?_ ?_
    · exact WakeRow.consistent_of_thawed rfl (by simp [settleWake, WakeState.Frozen])
    intro r _ _ hcovers
    rcases hcovers with hdispatched | ⟨hbound, -⟩ | hlater
    · exact .inl (hdispatched.trans (le_max_left _ _))
    · refine .inl (le_trans ?_ (le_max_right _ _))
      simp [hbound]
    · exact .inr (.inr hlater)
  | refused =>
    refine h.settle (marks_refuse _ generation) hw hrows rfl rfl rfl ?_ ?_
    · exact WakeRow.consistent_of_thawed rfl (by simp [settleWake, WakeState.Frozen])
    intro r hrkey hkept hcovers
    rcases hcovers with hdispatched | ⟨-, hcurrent⟩ | hlater
    · exact .inl hdispatched
    · -- the delivery that is refused is the one that is marked
      rw [Reserved.refuse, if_pos ⟨hrkey.trans hkey, hcurrent.trans hgeneration⟩] at hkept
      cases hkept
    · exact .inr (.inr hlater)
  | outcomeUnknown =>
    simp only [note]
    rw [← map_id log.reserved]
    refine h.settle marks_id hw hrows rfl rfl rfl ?_ fun _ _ _ => id
    simpa [WakeRow.Consistent, settleWake, WakeState.Frozen] using hactive

theorem step_op_cases (size : PageEntry → Nat) (log : AlertLog) (op : ThreadOp) :
    log.step size (.op op) = log ∨
    ∃ reply store, log.store.exec size op = .ok (reply, store) ∧
      (log.step size (.op op) = { log with store } ∧ (reply ≠ .changed true) ∨
        log.step size (.op op) = { log with store, reserved := note log.reserved op } ∧
          reply = .changed true) := by
  unfold step
  dsimp only
  cases hexec : log.store.exec size op with
  | error => exact .inl rfl
  | ok result =>
    obtain ⟨reply, store⟩ := result
    refine .inr ⟨reply, store, rfl, ?_⟩
    cases reply with
    | changed one =>
      cases one with
      | true => exact .inr ⟨rfl, rfl⟩
      | false => exact .inl ⟨rfl, by simp⟩
    | _ => exact .inl ⟨rfl, by simp⟩

theorem note_of_not_delivers {op : ThreadOp} (h : op.delivers = false) (reserved : List Reserved) :
    note reserved op = reserved := by
  cases op <;> first | rfl | cases h

theorem Sound.step (h : log.Sound) {event : AlertEvent} (hevent : log.Admitted event) :
    (log.step size event).Sound := by
  cases event with
  | candidates now batch => exact h.candidates now batch
  | op op =>
    rcases step_op_cases size log op with hsame | ⟨_, _, hexec, hcase⟩
    · rw [hsame]
      exact h
    cases hop : op.delivers with
    | false =>
      have hkept := h.keep (exec_keeps hop hexec)
      rcases hcase with ⟨hstep, -⟩ | ⟨hstep, -⟩
      · rwa [hstep]
      · rwa [hstep, note_of_not_delivers hop]
    | true =>
      cases op with
      | wakeReserve =>
        obtain ⟨_, hreserve, rfl⟩ := map_fst_eq_ok.mp hexec
        rcases threadWakeReserve_cases hreserve with ⟨rfl, rfl⟩ |
          ⟨rfl, w, hw, hkey, hgeneration, hrows⟩
        · rcases hcase with ⟨hstep, -⟩ | ⟨-, hchanged⟩
          · rwa [hstep]
          · cases hchanged
        · rcases hcase with ⟨-, hunchanged⟩ | ⟨hstep, -⟩
          · exact absurd rfl hunchanged
          · rw [hstep]
            exact h.reserve hevent hw hkey hgeneration hrows
      | wakeSettle =>
        obtain ⟨_, hsettle, rfl⟩ := map_fst_eq_ok.mp hexec
        rcases threadWakeSettle_cases hsettle with ⟨rfl, rfl⟩ |
          ⟨rfl, w, hw, hkey, hgeneration, hfrozen, hrows⟩
        · rcases hcase with ⟨hstep, -⟩ | ⟨-, hchanged⟩
          · rwa [hstep]
          · cases hchanged
        · rcases hcase with ⟨-, hunchanged⟩ | ⟨hstep, -⟩
          · exact absurd rfl hunchanged
          · rw [hstep]
            exact h.outcome hw hkey hgeneration hfrozen hrows
      | _ => cases hop

/-- An alert stays, and neither its generation nor what was dispatched goes back. -/
theorem advances (log : AlertLog) (event : AlertEvent) (hw : w ∈ log.store.wakes) :
    ∃ w' ∈ (log.step size event).store.wakes, w'.key = w.key ∧ w.generation ≤ w'.generation ∧
      w.dispatchedSeq ≤ w'.dispatchedSeq := by
  have hsame : ∃ w' ∈ log.store.wakes, w'.key = w.key ∧ w.generation ≤ w'.generation ∧
      w.dispatchedSeq ≤ w'.dispatchedSeq := ⟨w, hw, rfl, le_rfl, le_rfl⟩
  cases event with
  | candidates => exact hsame
  | op op =>
    rcases step_op_cases size log op with heq | ⟨_, store, hexec, hcase⟩
    · rw [heq]
      exact hsame
    have hstore : (log.step size (.op op)).store = store := by
      rcases hcase with ⟨hstep, -⟩ | ⟨hstep, -⟩ <;> rw [hstep]
    rw [hstore]
    cases hop : op.delivers with
    | false =>
      obtain ⟨w', hw', hquiet⟩ := (exec_keeps hop hexec).kept w hw
      exact ⟨w', hw', hquiet.key, hquiet.generation.ge, hquiet.dispatched.ge⟩
    | true =>
      cases op with
      | wakeReserve =>
        obtain ⟨_, hreserve, rfl⟩ := map_fst_eq_ok.mp hexec
        rcases threadWakeReserve_cases hreserve with ⟨rfl, rfl⟩ | ⟨rfl, _, hx, -, -, hrows⟩
        · exact hsame
        · rcases Replaces.image hrows rfl hx hw with ⟨rfl, hfrozen, -⟩ | ⟨-, hw'⟩
          · exact ⟨_, hfrozen, rfl, Nat.le_succ _, le_rfl⟩
          · exact ⟨w, hw', rfl, le_rfl, le_rfl⟩
      | wakeSettle _ _ _ outcome =>
        obtain ⟨_, hsettle, rfl⟩ := map_fst_eq_ok.mp hexec
        rcases threadWakeSettle_cases hsettle with ⟨rfl, rfl⟩ | ⟨rfl, x, hx, -, -, -, hrows⟩
        · exact hsame
        have hkey : (settleWake x outcome).key = x.key := by cases outcome <;> rfl
        rcases Replaces.image hrows hkey hx hw with ⟨rfl, hsettled, -⟩ | ⟨-, hw'⟩
        · refine ⟨_, hsettled, hkey, ?_, ?_⟩
          · cases outcome <;> exact le_rfl
          · cases outcome
            · exact le_max_left _ _
            · exact le_rfl
            · exact le_rfl
        · exact ⟨w, hw', rfl, le_rfl, le_rfl⟩
      | _ => cases hop

end AlertLog

/-- No alert is sent twice under one bound, over all runs in which reservations are made for
candidates that were offered at some time before. -/
theorem alert_bounds_increase (size : PageEntry → Nat) {events : List AlertEvent} {log : AlertLog}
    (hrun : Run (AlertLog.step size) AlertLog.Admitted AlertLog.start events log) :
    (∀ w ∈ log.store.wakes, w.activeThroughSeq.isSome ↔
      w.state = .inFlight ∨ w.state = .outcomeUnknown) ∧
    (∀ event, ∀ w ∈ log.store.wakes, ∃ w' ∈ (log.step size event).store.wakes, w'.key = w.key ∧
      w.generation ≤ w'.generation ∧ w.dispatchedSeq ≤ w'.dispatchedSeq) ∧
    (log.reserved.Pairwise fun g h =>
      g.key = h.key → g.refused = false → g.throughSeq < h.throughSeq) ∧
    ∀ threadId agentId generation outcome,
      (∀ w ∈ log.store.wakes, w.key = (threadId, agentId) → w.generation ≠ generation) →
      log.store.exec size (.wakeSettle threadId agentId generation outcome) =
        .ok (.changed false, log.store) := by
  have hsound : log.Sound :=
    hrun.invariant AlertLog.Sound (fun _ _ h hevent => h.step hevent) AlertLog.sound_start
  refine ⟨hsound.consistent, ?_, hsound.ordered, ?_⟩
  · intro event w hw
    exact log.advances event hw
  · intro threadId agentId generation outcome hother
    rw [exec, threadWakeSettle_other hother]
    rfl

def planningThread : CreateThread :=
  { actor := "ann", operationId := "o0", canonicalHash := "h0", threadId := "plan",
    title := "Plan", members := ["ann", "bob"], projectWarnings := [], now := 0,
    limits := ⟨10, 10, 10, 1000, 1000⟩ }

def planningNote (operationId messageId : String) (now : Int) : PostEntry :=
  { actor := "ann", operationId, canonicalHash := "h", threadId := "plan", messageId,
    body := "look", notify := .targets ["bob"], notices := [], projectWarnings := [],
    replyToSeq := none, ackReceipt := none, kind := none, supersedesSeq := none, now,
    limits := ⟨10, 10, 10, 1000, 1000⟩ }

def planningAlert (expectedGeneration throughSeq : Nat) (deliveryId : String) (issuedAt : Int) :
    WakeReservation :=
  { threadId := "plan", agentId := "bob", expectedGeneration, throughSeq, deliveryId,
    deliveryKey := "k", recipientInstanceId := "i", deliveryGeneration := 1, issuedAt,
    expiresAt := issuedAt + 30 }

/-- A delivery of unknown outcome, and the one that follows it after another entry. -/
def planningEvents : List AlertEvent :=
  [.op (.create planningThread), .op (.post (planningNote "o1" "m1" 1) fun _ => false),
    .candidates 2 8, .op (.wakeReserve (planningAlert 0 1 "d1" 2) 2), .op (.wakesExpire 40),
    .op (.post (planningNote "o2" "m2" 41) fun _ => false), .candidates 42 8,
    .op (.wakeReserve (planningAlert 1 2 "d2" 42) 42), .op (.wakeSettle "plan" "bob" 2 .dispatched)]

def planningLog : AlertLog := planningEvents.foldl (AlertLog.step fun _ => 100) AlertLog.start

/-- Two alerts, the second past the first. -/
theorem planning_alerts_increase :
    planningLog.reserved.map Reserved.throughSeq = [1, 2] ∧
      planningLog.reserved.Pairwise fun g h =>
        g.key = h.key → g.refused = false → g.throughSeq < h.throughSeq := by
  have hrun : Run (AlertLog.step fun _ => 100) AlertLog.Admitted AlertLog.start planningEvents
      planningLog := Run.of_allows (by decide +kernel)
  exact ⟨by decide +kernel, (alert_bounds_increase (fun _ => 100) hrun).2.2.1⟩

end Bridget.Threads
