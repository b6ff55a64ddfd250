import Bridget.Idempotency.DeliveryEdits

/-!
# Turns of held messages

A message that finds its recipient busy is held. When the recipient is at rest the first held
message takes its turn, which is marked on the delivery and given up when the delivery ends,
when its acknowledgement is old, or when the recipient reports a turn.
-/

namespace Bridget.Idempotency

open Foundation Table Store Option Function

/-- The store; for each agent the delivery that was last handed to it, as long as it is stored
and no turn was reported; and the times at which the agent was found at rest since. -/
structure TurnState where
  store : Store
  handed : String → Option String
  rests : String → List Int

namespace TurnState

def start (store : Store) : TurnState := ⟨store, fun _ => none, fun _ => []⟩

/-- The delivery handed to an agent, unless it was deleted. -/
def kept (s : TurnState) (store : Store) (agent : String) : Option String :=
  (s.handed agent).filter fun id => (store.deliveries.find? fun d => d.deliveryId = id).isSome

def step (env : Envelopes) (s : TurnState) (op : QueueOp) : TurnState :=
  match s.store.execQueue env op with
  | .error _ => s
  | .ok (some (agent, delivery), store) =>
    { store
      handed := update (s.kept store) agent (some delivery.deliveryId)
      rests := update s.rests agent [] }
  | .ok (none, store) =>
    { store
      handed := fun agent => if op.clears agent then none else s.kept store agent
      rests := fun agent => s.rests agent ++ op.rests agent }

end TurnState

variable {op : QueueOp} {d d' : DeliveryRow} {agent : String} {rests : List Int}

/-- A delivery that was handed to its agent: it has the turn, or it came to an end. -/
def Handed (rests : List Int) (d : DeliveryRow) : Prop :=
  d.turnGate = true ∧ (d.phase = .dispatching ∨ d.phase = .acked) ∨
    d.phase = .orphaned ∨ d.phase = .indeterminate ∨
    d.phase = .acked ∧ ∃ ackedAt ∈ d.ackedAt, ∃ now ∈ rests, ackedAt < saturatingSub now 30

theorem Handed.mono {rests' : List Int} (h : Handed rests d) (hsub : rests ⊆ rests') :
    Handed rests' d := by
  obtain hgate | horphaned | hlost | ⟨hacked, ackedAt, hdate, now, hnow, hold⟩ := h
  · exact .inl hgate
  · exact .inr (.inl horphaned)
  · exact .inr (.inr (.inl hlost))
  · exact .inr (.inr (.inr ⟨hacked, ackedAt, hdate, now, hsub hnow, hold⟩))

theorem Handed.phase (h : Handed rests d) :
    d.phase ≠ .held ∧ (d.phase = .dispatching → d.turnGate = true) := by
  obtain ⟨_, hphase | hphase⟩ | hphase | hphase | ⟨hphase, -⟩ := h <;> simp [*]

theorem Edit.handed (h : Edit op d d') (hhanded : Handed rests d)
    (hclears : op.clears d.recipientAgent = false) (hrests : op.rests d.recipientAgent ⊆ rests) :
    Handed rests d' := by
  obtain ⟨hnotHeld, hgate⟩ := hhanded.phase
  cases h with
  | address => exact hhanded
  | recover _ hphase => exact .inl ⟨rfl, .inl hphase⟩
  | rank _ hphase | replace _ hphase | take hphase => exact absurd hphase hnotHeld
  | acknowledge _ hphase => exact .inl ⟨hgate hphase, .inr rfl⟩
  | lose => exact .inr (.inr (.inl rfl))
  | orphan => exact .inr (.inl rfl)
  | cancel hphase => exact absurd hphase hnotHeld
  | clear hreported =>
    rw [hclears] at hreported
    cases hreported
  | expire hnow hphase hacked hold =>
    exact .inr (.inr (.inr ⟨hphase, _, hacked, _, hrests hnow, hold⟩))

theorem Edits.handed (h : Edits op d d') (hhanded : Handed rests d)
    (hclears : op.clears d.recipientAgent = false) (hrests : op.rests d.recipientAgent ⊆ rests) :
    Handed rests d' := by
  induction h with
  | refl => exact hhanded
  | tail hedits hedit ih =>
    have hagent := Edits.same hedits
    exact hedit.handed ih (by rw [hagent.2.2]; exact hclears) (by rw [hagent.2.2]; exact hrests)

namespace Store

variable {env : Envelopes} {s s' : Store} {delivery : SendDelivery}

theorem mem_takeTurn {deliveries taken : Table DeliveryRow} {p : DeliveryRow → Bool}
    (h : deliveries.update p takeTurn = .ok (taken, 1)) :
    ∃ x ∈ deliveries, p x = true ∧ takeTurn x ∈ taken := by
  obtain ⟨x, hx, hselected⟩ := exists_of_count_eq_one (update_rows h).2.symm
  refine ⟨x, hx, hselected, (mem_update h).mpr ⟨x, hx, ?_⟩⟩
  rw [rewrite, if_pos hselected]

theorem releaseNextHeld_eq_some {now : Int} {eventIds : Nat → String}
    {notice : Option OrphanedDeliveryNotice}
    (h : s.releaseNextHeld env agent now eventIds = .ok ((some delivery, notice), s')) :
    ∃ deliveries n d r taken,
      s.deliveries.update (turnOver agent now) (fun d => { d with turnGate := false }) =
        .ok (deliveries, n) ∧ ({ s with deliveries } : Store).turnReserved agent = false ∧
      ({ s with deliveries } : Store).nextHeld agent = some (d, r) ∧
      delivery.deliveryId = d.deliveryId ∧
      deliveries.update (fun x => x.deliveryId = d.deliveryId ∧ x.phase = .held ∧ !x.turnGate)
        takeTurn = .ok (taken, 1) ∧ s'.deliveries = taken := by
  obtain ⟨hnone, -⟩ | ⟨deliveries, n, hungate, hfree, hrest⟩ := releaseNextHeld_cases h
  · cases hnone
  obtain ⟨hnone, -⟩ | ⟨d, r, hnext, ⟨_, _, hnone, -⟩ | ⟨other, taken, hsome, hid, htake, rfl⟩⟩ :=
    hrest
  · cases hnone
  · cases hnone
  · cases hsome
    exact ⟨deliveries, n, d, r, taken, hungate, hfree, hnext, hid, htake, rfl⟩

/-- A delivery that is handed to an agent has the turn of that agent. -/
theorem execQueue_taken (h : s.execQueue env op = .ok (some (agent, delivery), s')) :
    (∃ d ∈ s'.deliveries, d.deliveryId = delivery.deliveryId ∧ d.recipientAgent = agent ∧
        d.turnGate = true ∧ d.phase = .dispatching) ∧
      (∀ other, op.clears other = false) ∧ ∀ other, other ≠ agent → op.rests other = [] := by
  cases op with
  | store op =>
    cases op with
    | releaseNextHeld =>
      simp only [execQueue, ok_iff, pair_iff, map_eq_some_iff] at h
      obtain ⟨_, _, _, hrelease, ⟨_, rfl, rfl, rfl⟩, rfl⟩ := h
      obtain ⟨_, _, d, _, _, -, -, hnext, hid, htake, hafter⟩ := releaseNextHeld_eq_some hrelease
      obtain ⟨hd, hagent, -⟩ := nextHeld_eq_some hnext
      obtain ⟨x, hx, hselected, hmem⟩ := mem_takeTurn htake
      simp only [test_iff] at hselected
      have hsame : x = d := eq_of_conflicts hx hd (.inr (.inl hselected.1))
      refine ⟨⟨takeTurn x, hafter ▸ hmem, ?_, ?_, rfl, rfl⟩, fun _ => rfl, ?_⟩
      · exact hselected.1.trans hid.symm
      · rw [hsame]
        exact hagent
      · intro other hother
        exact if_neg hother
    | promote =>
      simp only [execQueue, ok_iff, pair_iff, map_eq_some_iff] at h
      obtain ⟨_, _, _, _, hpromote, ⟨released, rfl, rfl, rfl⟩, rfl⟩ := h
      obtain ⟨_, -, -, hnone, -⟩ | ⟨-, _, hedit, hbody⟩ := applyPromote_calls hpromote
      · cases hnone
      obtain ⟨hnone, -⟩ | ⟨outcome, edited, happly, hsame, heffect⟩ := queueEditOnce_cases hedit
      · cases hnone
      have hdecided := heffect released rfl
      obtain ⟨-, hrefused⟩ | ⟨_, -, hheld⟩ := hbody outcome edited happly
      · cases hrefused.symm.trans hdecided
      obtain ⟨hnone, -⟩ | ⟨_, deliveries, hdecision, hid, htake, rfl⟩ := promoteHeld_cases hheld
      · exact absurd hdecided (hnone released)
      cases hdecision.symm.trans hdecided
      obtain ⟨x, _, hselected, hmem⟩ := mem_takeTurn htake
      simp only [test_iff] at hselected
      refine ⟨⟨takeTurn x, ?_, ?_, hselected.2.1, rfl, rfl⟩, fun _ => rfl, fun _ _ => rfl⟩
      · rw [hsame.deliveries]
        exact hmem
      · exact hselected.1.trans hid.symm
    | _ =>
      simp only [execQueue, ok_iff, pair_iff, reduceCtorEq, false_and, and_false, exists_false] at h
  | _ =>
    simp only [execQueue, ok_iff, pair_iff, reduceCtorEq, false_and, and_false, exists_false] at h

end Store

structure Turns (s : TurnState) : Prop where
  referenced : s.store.Referenced
  gated : ∀ d ∈ s.store.deliveries, Gated d
  handed : ∀ agent id, s.handed agent = some id → ∃ d ∈ s.store.deliveries,
    d.deliveryId = id ∧ d.recipientAgent = agent ∧ Handed (s.rests agent) d

variable {env : Envelopes} {s : TurnState} {store : Store}

/-- The delivery last handed to an agent, followed through an operation. -/
theorem Turns.kept (h : Turns s) (hevolves : s.store.Evolves op store) {id : String}
    (hkept : s.kept store agent = some id) (hclears : op.clears agent = false) :
    ∃ d ∈ store.deliveries, d.deliveryId = id ∧ d.recipientAgent = agent ∧
      Handed (s.rests agent ++ op.rests agent) d := by
  obtain ⟨hhanded, hstored⟩ := filter_eq_some_iff.mp hkept
  obtain ⟨d, hd, hid, hagent, hrow⟩ := h.handed agent id hhanded
  obtain ⟨d', hfind⟩ := isSome_iff_exists.mp hstored
  have hd' : d' ∈ store.deliveries := mem_of_find? hfind
  have hid' : d'.deliveryId = id := by simpa using find?_some hfind
  obtain ⟨origin, horigin, hedits⟩ | hbegun := hevolves.rows d' hd'
  · have hsame : origin = d := by
      apply eq_of_conflicts horigin hd
      exact .inr (.inl (hedits.same.1.symm.trans (hid'.trans hid.symm)))
    subst hsame
    refine ⟨d', hd', hid', hedits.same.2.2.trans hagent, ?_⟩
    apply hedits.handed (hrow.mono (List.subset_append_left _ _))
    · rw [hagent]
      exact hclears
    · rw [hagent]
      exact List.subset_append_right _ _
  · exact absurd (hid.trans hid'.symm) (hbegun.fresh d hd)

theorem Turns.gated_evolves (h : Turns s) (hevolves : s.store.Evolves op store) :
    ∀ d ∈ store.deliveries, Gated d := by
  intro d' hd'
  obtain ⟨d, hd, hedits⟩ | hbegun := hevolves.rows d' hd'
  · exact hedits.gated (h.gated d hd)
  · exact hbegun.gated

theorem Turns.step (h : Turns s) : Turns (s.step env op) := by
  unfold TurnState.step
  split
  · exact h
  next agent _ _ hexec =>
    have hevolves := execQueue_evolves hexec
    obtain ⟨⟨d, hd, hid, hagent, hgate, hphase⟩, hclears, hrests⟩ := execQueue_taken hexec
    refine ⟨hevolves.referenced h.referenced, h.gated_evolves hevolves, ?_⟩
    intro other id hhanded
    by_cases hother : other = agent
    · subst hother
      simp only [update_self, some.injEq] at hhanded
      exact ⟨d, hd, hid.trans hhanded, hagent, .inl ⟨hgate, .inl hphase⟩⟩
    · simp only [update_of_ne hother] at hhanded ⊢
      obtain ⟨d, hd, hid, hagent, hrow⟩ := h.kept hevolves hhanded (hclears other)
      rw [hrests other hother, List.append_nil] at hrow
      exact ⟨d, hd, hid, hagent, hrow⟩
  next hexec =>
    have hevolves := execQueue_evolves hexec
    refine ⟨hevolves.referenced h.referenced, h.gated_evolves hevolves, ?_⟩
    intro agent id hhanded
    dsimp only at hhanded
    split at hhanded
    · cases hhanded
    next hclears => exact h.kept hevolves hhanded (by simpa using hclears)

/-- A release looks at the held delivery of lowest rank. -/
theorem Store.Referenced.nextHeld_le {store : Store} (h : store.Referenced) {r : RecordRow}
    (hnext : store.nextHeld agent = some (d, r)) {other : DeliveryRow}
    (hother : other ∈ store.deliveries) (hagent : other.recipientAgent = agent)
    (hheld : other.phase = .held) : d.queueRank ≤ other.queueRank := by
  have hmem : other ∈ store.heldByRank agent := by
    apply (List.mem_insertionSort _).mpr
    exact mem_select.mpr ⟨hother, by simp [hagent, hheld]⟩
  have hsorted : (store.heldByRank agent).Pairwise fun a b => a.queueRank ≤ b.queueRank :=
    List.pairwise_insertionSort _ _
  cases hrows : store.heldByRank agent with
  | nil =>
    rw [hrows] at hmem
    cases hmem
  | cons first =>
    -- the first row has a record, so it is the one that is found
    have hfirst : first ∈ store.deliveries := by
      have hin : first ∈ store.heldByRank agent := hrows ▸ List.mem_cons_self
      exact (mem_select.mp ((List.mem_insertionSort _).mp hin)).1
    obtain ⟨_, hload⟩ := isSome_iff_exists.mp (h first hfirst)
    rw [nextHeld, hrows, List.findSome?_cons, hload] at hnext
    cases hnext
    rw [hrows] at hmem hsorted
    obtain rfl | hrest := List.mem_cons.mp hmem
    · exact le_rfl
    · exact List.rel_of_pairwise_cons hsorted hrest

theorem Store.turnReserved_eq_false {store : Store} (h : store.turnReserved agent = false)
    (hd : d ∈ store.deliveries) (hagent : d.recipientAgent = agent) : d.turnGate = false := by
  have hnone : store.deliveries.find? (fun d => d.recipientAgent = agent ∧ d.turnGate) = none := by
    simpa [turnReserved] using h
  have hclosed := find?_eq_none.mp hnone d hd
  simpa [hagent] using hclosed

section Release

variable {deliveries : Table DeliveryRow} {now : Int} {n : Nat}

def rested (agent : String) (now : Int) (d : DeliveryRow) : DeliveryRow :=
  rewrite (turnOver agent now) (fun d => { d with turnGate := false }) d

/-- Giving up a turn changes nothing else of a delivery. -/
theorem rested_same (agent : String) (now : Int) (d : DeliveryRow) :
    (rested agent now d).deliveryId = d.deliveryId ∧ (rested agent now d).key = d.key ∧
      (rested agent now d).recipientAgent = d.recipientAgent ∧
      (rested agent now d).phase = d.phase ∧ (rested agent now d).queueRank = d.queueRank := by
  unfold rested rewrite
  split <;> exact ⟨rfl, rfl, rfl, rfl, rfl⟩

theorem mem_rested (hungate : store.deliveries.update (turnOver agent now)
      (fun d => { d with turnGate := false }) = .ok (deliveries, n)) :
    d' ∈ deliveries ↔ ∃ d ∈ store.deliveries, rested agent now d = d' :=
  mem_update hungate

/-- When no turn of the agent is reserved any more, a delivery that was handed to it is over. -/
theorem Handed.over (h : Handed rests d) (hrested : (rested agent now d).turnGate = false) :
    d.phase = .orphaned ∨ d.phase = .indeterminate ∨
      d.phase = .acked ∧
        ∃ ackedAt ∈ d.ackedAt, ∃ t ∈ now :: rests, ackedAt < saturatingSub t 30 := by
  obtain ⟨hgate, -⟩ | horphaned | hlost | ⟨hacked, ackedAt, hdate, t, ht, hold⟩ := h
  · -- its turn was given up just now
    have hover : turnOver agent now d = true := by
      by_contra hkept
      rw [rested, rewrite, if_neg hkept, hgate] at hrested
      cases hrested
    simp only [turnOver, test_iff] at hover
    obtain ⟨-, -, hphase, ackedAt, hdate, hold⟩ := hover
    exact .inr (.inr ⟨hphase, ackedAt, hdate, now, List.mem_cons_self, hold⟩)
  · exact .inl horphaned
  · exact .inr (.inl hlost)
  · exact .inr (.inr ⟨hacked, ackedAt, hdate, t, List.mem_cons_of_mem _ ht, hold⟩)

end Release

/-- Held messages take turns. A turn is held by a delivery on its way or by one whose
acknowledgement has a date. A delivery that is released is the first of the held ones of its
agent and the only one with the turn, and the one handed out before is over: it is deleted, lost,
orphaned, or its acknowledgement was old when the agent was found at rest. -/
theorem held_messages_take_turns (env : Envelopes) {initial : Store} (hempty : initial.Empty)
    {ops : List QueueOp} {s : TurnState}
    (hrun : Runs (TurnState.step env) (.start initial) ops s) :
    (∀ d ∈ s.store.deliveries, d.turnGate = true →
      d.phase = .dispatching ∨ d.phase = .acked ∧ d.ackedAt.isSome = true) ∧
    ∀ agent now eventIds delivery notice store,
      s.store.releaseNextHeld env agent now eventIds = .ok ((some delivery, notice), store) →
      (∃ d ∈ s.store.deliveries, d.deliveryId = delivery.deliveryId ∧ d.recipientAgent = agent ∧
        d.phase = .held ∧ ∀ other ∈ s.store.deliveries, other.recipientAgent = agent →
          other.phase = .held → d.queueRank ≤ other.queueRank) ∧
      (∀ other ∈ store.deliveries, other.recipientAgent = agent → other.turnGate = true →
        other.deliveryId = delivery.deliveryId) ∧
      ∀ id ∈ s.handed agent, ∃ d ∈ s.store.deliveries, d.deliveryId = id ∧
        (d.phase = .orphaned ∨ d.phase = .indeterminate ∨
          d.phase = .acked ∧ ∃ ackedAt ∈ d.ackedAt, ∃ t ∈ now :: s.rests agent,
            ackedAt < saturatingSub t 30) := by
  have hturns : Turns s := by
    apply hrun.invariant Turns
    · exact fun _ _ hturns _ => hturns.step
    refine ⟨?_, ?_, nofun⟩
    all_goals
      intro d hd
      rw [TurnState.start, hempty.deliveries] at hd
      cases hd
  refine ⟨hturns.gated, ?_⟩
  intro agent now eventIds delivery notice store hrelease
  obtain ⟨deliveries, _, _, _, _, hungate, hfree, hnext, hid, htake, hafter⟩ :=
    releaseNextHeld_eq_some hrelease
  obtain ⟨hd, hagent, hheld⟩ := nextHeld_eq_some hnext
  refine ⟨?_, ?_, ?_⟩
  · have hreferenced : ({ s.store with deliveries } : Store).Referenced := by
      intro x hx
      obtain ⟨x₀, hx₀, rfl⟩ := (mem_rested hungate).mp hx
      rw [(rested_same agent now x₀).2.1]
      exact hturns.referenced x₀ hx₀
    obtain ⟨d₀, hd₀, rfl⟩ := (mem_rested hungate).mp hd
    obtain ⟨hid₀, -, hagent₀, hphase₀, hrank₀⟩ := rested_same agent now d₀
    refine ⟨d₀, hd₀, hid₀.symm.trans hid.symm, hagent₀.symm.trans hagent,
      hphase₀.symm.trans hheld, ?_⟩
    intro other hother hotherAgent hotherHeld
    obtain ⟨-, -, hagent₁, hphase₁, hrank₁⟩ := rested_same agent now other
    rw [← hrank₀, ← hrank₁]
    apply hreferenced.nextHeld_le hnext ((mem_rested hungate).mpr ⟨other, hother, rfl⟩)
    · exact hagent₁.trans hotherAgent
    · exact hphase₁.trans hotherHeld
  · intro other hother hotherAgent hgate
    rw [hafter] at hother
    obtain ⟨_, hx, rfl⟩ := (mem_update htake).mp hother
    unfold rewrite at hotherAgent hgate ⊢
    split at hgate
    next hselected =>
      simp only [test_iff] at hselected
      rw [if_pos (by simpa using hselected)]
      exact hselected.1.trans hid.symm
    next hkept =>
      rw [if_neg hkept] at hotherAgent
      rw [turnReserved_eq_false hfree hx hotherAgent] at hgate
      cases hgate
  · intro id hhanded
    obtain ⟨x, hx, hxid, hxagent, hrow⟩ := hturns.handed agent id hhanded
    have hrested : (rested agent now x).turnGate = false := by
      apply turnReserved_eq_false hfree ((mem_rested hungate).mpr ⟨x, hx, rfl⟩)
      exact (rested_same agent now x).2.2.1.trans hxagent
    exact ⟨x, hx, hxid, hrow.over hrested⟩

def holdGreeting (name : String) (now : Int) : List QueueOp :=
  let key : IdempotencyKey := ⟨"client-000000000000000001", .send, name⟩
  [.store (.reserve key sampleBytes now 1000 now 0), .store (.beginSendDelivery key
      ⟨⟨name, "i1", 1, 5000, sampleBytes⟩, none, none, none, none, some "bob"⟩ now)]

def release (now : Int) : QueueOp := .store (.releaseNextHeld "bob" now fun _ => "event")

def firstGreeting : List QueueOp :=
  holdGreeting "d1" 90 ++ [release 100, .store (.acknowledge "d1" "i1" 1 100 100)]

/-- The second message is released once the first one's agent is at rest. -/
theorem second_greeting_waits_for_its_turn :
    ∃ s store notice, Runs (TurnState.step sampleEnvelopes)
        (.start .init) (firstGreeting ++ holdGreeting "d2" 105) s ∧
      s.store.releaseNextHeld sampleEnvelopes "bob" 131 (fun _ => "event") =
        .ok ((some ⟨"d2", "i1", 1, 5000, sampleBytes⟩, notice), store) ∧
      s.handed "bob" = some "d1" ∧
      ∀ other ∈ store.deliveries, other.recipientAgent = "bob" → other.turnGate = true →
        other.deliveryId = "d2" := by
  have hrun : Runs (TurnState.step sampleEnvelopes) (.start .init)
      (firstGreeting ++ holdGreeting "d2" 105) _ := Run.of_allows (by decide +kernel)
  have hreleased : (((firstGreeting ++ holdGreeting "d2" 105).foldl
      (TurnState.step sampleEnvelopes) (.start .init)).store.releaseNextHeld sampleEnvelopes
        "bob" 131 fun _ => "event").map Prod.fst =
      .ok (some ⟨"d2", "i1", 1, 5000, sampleBytes⟩, none) := by decide +kernel
  obtain ⟨⟨_, store⟩, hrelease, rfl⟩ := map_eq_ok.mp hreleased
  obtain ⟨-, hturns⟩ := held_messages_take_turns sampleEnvelopes init_empty hrun
  obtain ⟨-, hother, -⟩ := hturns _ _ _ _ _ _ hrelease
  exact ⟨_, store, none, hrun, hrelease, by decide +kernel, hother⟩

/-- When the clock goes back, the second greeting is released although the first one was
acknowledged less than thirty seconds before. -/
theorem turn_lost_to_a_clock_that_goes_back :
    let s := (firstGreeting ++ [release 200] ++ holdGreeting "d2" 105).foldl
      (TurnState.step sampleEnvelopes) (.start .init)
    (s.store.releaseNextHeld sampleEnvelopes "bob" 110 fun _ => "event").map Prod.fst =
        .ok (some ⟨"d2", "i1", 1, 5000, sampleBytes⟩, none) ∧
      s.handed "bob" = some "d1" ∧
      (s.store.deliveries.find? fun d => d.deliveryId = "d1").map
          (fun d => (d.phase, d.ackedAt)) = some (.acked, some 100) ∧
      ¬ (100 : Int) < saturatingSub 110 30 := by
  refine ⟨?_, ?_, ?_, ?_⟩
  · decide +kernel
  · decide +kernel
  · decide +kernel
  · decide

end Bridget.Idempotency
