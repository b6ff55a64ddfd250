import Bridget.Idempotency.EditReceipts
import Bridget.Idempotency.TurnGate

/-!
# Queue edits over whole runs

Edits are called again with the same identifier, with other bytes, after a crash and after a
purge, beside all other operations of the store. The callers' view of such a run is kept beside
the store: the first answer under each identifier, and the effects that were committed.
-/

namespace Bridget.Idempotency

open Foundation List Table

def EditAnswer.key (answer : EditAnswer) : String × String := (answer.issuerScope, answer.requestId)

def EditCall.key (call : EditCall) : String × String :=
  (call.request.issuerScope, call.request.requestId)

/-- The store, with the first answer that was given under each identifier since its receipt was
purged, and the identifiers whose effects were committed since then. -/
structure EditState where
  store : Store
  answers : List EditAnswer
  effects : List ((String × String) × Int)

inductive EditEvent where
  | edit (call : EditCall) (now : Int)
  | op (op : Op)
  | purgeQueueEdits (now : Int)
  /-- The open transaction is lost. -/
  | crash

/-- Edits are not hidden among the other operations. -/
def EditEvent.Admitted (_ : EditState) : EditEvent → Prop
  | .op operation => operation.isEdit = false
  | _ => True

instance (s : EditState) : (event : EditEvent) → Decidable (event.Admitted s)
  | .op operation => inferInstanceAs (Decidable (operation.isEdit = false))
  | .edit .. | .purgeQueueEdits _ | .crash => .isTrue trivial

namespace EditState

def start (store : Store) : EditState := ⟨store, [], []⟩

variable (s : EditState)

/-- The caller has an answer; it is the first one unless the identifier was used before. -/
def record (call : EditCall) (now : Int) (reply : EditReply) (store : Store) : EditState where
  store := store
  answers :=
    if call.granted = true ∧ ∀ answer ∈ s.answers, answer.key ≠ call.key then
      s.answers ++ [call.request.answer call.action now reply.receipt.state reply.receipt.refusal]
    else s.answers
  effects :=
    if reply.effect.isSome = true ∨ reply.notice.isSome = true then
      s.effects ++ [(call.key, now + queueEditRetentionSecs)]
    else s.effects

/-- What was said and done more than the retention ago is forgotten. -/
def forget (now : Int) (store : Store) : EditState where
  store := store
  answers := s.answers.filter fun answer => now ≤ answer.expiresAt
  effects := s.effects.filter fun effect => now ≤ effect.2

def step (env : Envelopes) (s : EditState) : EditEvent → EditState
  | .edit call now =>
    match s.store.edit env now call with
    | .ok (reply, store) => s.record call now reply store
    | .error _ => s
  | .op op =>
    match op.purgesAt with
    | some now => s.forget now (s.store.step env op)
    | none => { s with store := s.store.step env op }
  | .purgeQueueEdits now => s.forget now (s.store.purgeQueueEdits now)
  | .crash => s

/-- The receipts are the first answers, and each effect belongs to one of them. -/
structure Sound (s : EditState) : Prop where
  valid : ∀ answer ∈ s.answers, answer.Valid
  answers : ∀ answer, answer ∈ s.answers ↔ ∃ row ∈ s.store.queueEdits, row.answer = answer
  effects : ∀ effect ∈ s.effects, ∃ answer ∈ s.answers,
    answer.key = effect.1 ∧ answer.expiresAt = effect.2
  once : (s.effects.map Prod.fst).Nodup

variable {env : Envelopes} {s : EditState} {request : QueueEditRequest}

section

variable (h : s.Sound) {answer : EditAnswer} {row : QueueEditRow} {store : Store}

include h

theorem Sound.receipt_of_answer (hanswer : answer ∈ s.answers)
    (hkey : answer.key = (request.issuerScope, request.requestId)) :
    ∃ row, s.store.receipt request = some row ∧ row.answer = answer := by
  obtain ⟨row, hrow, rfl⟩ := (h.answers answer).mp hanswer
  refine ⟨row, (find?_eq_some (Store.pinsKey_receipt request)).mpr ⟨hrow, ?_⟩, rfl⟩
  obtain ⟨hscope, hid⟩ := Prod.mk.inj hkey
  exact decide_eq_true ⟨hscope, hid⟩

theorem Sound.answer_of_receipt (hfound : s.store.receipt request = some row) :
    row.answer ∈ s.answers ∧ row.answer.key = (request.issuerScope, request.requestId) := by
  obtain ⟨hrow, hkey⟩ := (find?_eq_some (Store.pinsKey_receipt request)).mp hfound
  obtain ⟨hscope, hid⟩ := of_decide_eq_true hkey
  exact ⟨(h.answers _).mpr ⟨row, hrow, rfl⟩, Prod.ext hscope hid⟩

theorem Sound.receipt_eq_none :
    s.store.receipt request = none ↔
      ∀ answer ∈ s.answers, answer.key ≠ (request.issuerScope, request.requestId) := by
  constructor
  · intro hnone answer hanswer hkey
    obtain ⟨_, hrow, -⟩ := h.receipt_of_answer hanswer hkey
    rw [hnone] at hrow
    cases hrow
  intro hfree
  cases hfound : s.store.receipt request with
  | none => rfl
  | some =>
    obtain ⟨hanswer, hkey⟩ := h.answer_of_receipt hfound
    exact absurd hkey (hfree _ hanswer)

theorem Sound.forget (now : Int)
    (hreceipts : store.queueEdits = s.store.queueEdits.delete fun e => e.expiresAt < now) :
    (s.forget now store).Sound where
  valid := fun answer hanswer => h.valid answer (mem_filter.mp hanswer).1
  answers := by
    intro answer
    simp only [EditState.forget, mem_filter, hreceipts, mem_delete, h.answers]
    constructor
    · rintro ⟨⟨row, hrow, rfl⟩, hkept⟩
      refine ⟨row, ⟨hrow, ?_⟩, rfl⟩
      exact decide_eq_false (not_lt.mpr (of_decide_eq_true hkept))
    · rintro ⟨row, ⟨hrow, hkept⟩, rfl⟩
      refine ⟨⟨row, hrow, rfl⟩, ?_⟩
      exact decide_eq_true (not_lt.mp (of_decide_eq_false hkept))
  effects := by
    intro effect heffect
    obtain ⟨heffect, _⟩ := mem_filter.mp heffect
    obtain ⟨answer, hanswer, hkey, hexpires⟩ := h.effects effect heffect
    exact ⟨answer, mem_filter.mpr ⟨hanswer, by rwa [hexpires]⟩, hkey, hexpires⟩
  once := h.once.sublist (filter_sublist.map Prod.fst)

theorem Sound.insert {receipts : Table QueueEditRow}
    (hinsert : s.store.queueEdits.insert row = .ok receipts) (answer : EditAnswer) :
    answer ∈ s.answers ++ [row.answer] ↔ ∃ row ∈ receipts, row.answer = answer := by
  simp only [mem_append, mem_singleton, h.answers, mem_insert hinsert]
  constructor
  · rintro (⟨before, hbefore, rfl⟩ | rfl)
    · exact ⟨before, .inl hbefore, rfl⟩
    · exact ⟨row, .inr rfl, rfl⟩
  · rintro ⟨before, hbefore | rfl, rfl⟩
    · exact .inl ⟨before, hbefore, rfl⟩
    · exact .inr rfl

variable {call : EditCall} {now : Int} {reply : EditReply}

/-- The first answer under an identifier; an effect is committed only with it. -/
theorem Sound.decides
    {settles : OrphanedDeliveryNotice → Store → Prop} (hgranted : call.granted = true) (hdecides :
      s.store.Decides call.request call.action now settles reply.receipt reply.notice store) :
    (s.record call now reply store).Sound := by
  have hfirst : ∀ answer ∈ s.answers, answer.key ≠ call.key := h.receipt_eq_none.mp hdecides.free
  obtain ⟨row, hinsert, hanswer, hvalid⟩ := hdecides.recorded
  have hanswers : (s.record call now reply store).answers = s.answers ++ [row.answer] := by
    rw [hanswer]
    exact if_pos ⟨hgranted, hfirst⟩
  constructor
  · rw [hanswers]
    intro answer hmem
    rcases mem_append.mp hmem with hmem | hmem
    · exact h.valid answer hmem
    · exact mem_singleton.mp hmem ▸ hvalid
  · rw [hanswers]
    exact h.insert hinsert
  · rw [hanswers]
    unfold EditState.record
    intro effect heffect
    have hbefore : effect ∈ s.effects → ∃ answer ∈ s.answers ++ [row.answer],
        answer.key = effect.1 ∧ answer.expiresAt = effect.2 := by
      intro hbefore
      obtain ⟨answer, hmem, hmatch⟩ := h.effects effect hbefore
      exact ⟨answer, mem_append_left _ hmem, hmatch⟩
    dsimp only at heffect
    split at heffect
    · rcases mem_append.mp heffect with hmem | hmem
      · exact hbefore hmem
      · obtain rfl := mem_singleton.mp hmem
        refine ⟨row.answer, by simp, ?_⟩
        rw [hanswer]
        exact ⟨rfl, rfl⟩
    · exact hbefore heffect
  · unfold EditState.record
    dsimp only
    split
    · rw [map_append, nodup_append]
      refine ⟨h.once, nodup_singleton _, ?_⟩
      intro key hkey _ hother
      obtain ⟨effect, heffect, rfl⟩ := mem_map.mp hkey
      obtain rfl := mem_singleton.mp hother
      obtain ⟨answer, hmem, hmatch, -⟩ := h.effects effect heffect
      rw [← hmatch]
      exact hfirst answer hmem
    · exact h.once

theorem Sound.record (hreturn : s.store.edit env now call = .ok (reply, store)) :
    (s.record call now reply store).Sound := by
  cases hgranted : call.granted with
  | false =>
    obtain ⟨rfl, -, heffect, hnotice⟩ := Store.edit_of_not_granted hgranted hreturn
    have hsame : s.record call now reply s.store = s := by
      simp [EditState.record, hgranted, heffect, hnotice]
    rwa [hsame]
  | true =>
    rcases Store.edit_result hgranted hreturn with
      ⟨heffect, hnotice, rfl, previous, hreplays⟩ | ⟨hdecides, -⟩
    · obtain ⟨hanswer, hkey⟩ := h.answer_of_receipt hreplays.found
      have hused : ¬ ∀ answer ∈ s.answers, answer.key ≠ call.key := fun hfree =>
        hfree _ hanswer hkey
      have hsame : s.record call now reply s.store = s := by
        unfold EditState.record
        rw [if_neg fun hnew => hused hnew.2, if_neg (by simp [heffect, hnotice])]
      rwa [hsame]
    · exact h.decides hgranted hdecides

theorem Sound.step {event : EditEvent} (hadmitted : event.Admitted s) :
    (s.step env event).Sound := by
  cases event with
  | edit =>
    unfold EditState.step
    dsimp only
    split
    next hreturn => exact h.record hreturn
    · exact h
  | op =>
    have hreceipts := Store.step_queueEdits env s.store hadmitted
    unfold EditState.step
    dsimp only
    split
    next now hpurge =>
      rw [hpurge] at hreceipts
      exact h.forget now hreceipts
    next hpurge =>
      rw [hpurge] at hreceipts
      exact { h with answers := by rw [hreceipts]; exact h.answers }
  | purgeQueueEdits now => exact h.forget now rfl
  | crash => exact h

/-- What a call under the identifier of an earlier answer comes to. -/
structure Repeats (env : Envelopes) (s : EditState) (call : EditCall) (now : Int)
    (answer : EditAnswer) : Prop where
  /-- It returns, unless its bytes are too long or the clock is at the end of its range. -/
  returns : validateCanonicalBytes call.request.canonicalBytes = .ok () →
    (checkedAdd now queueEditRetentionSecs).isSome = true →
      ∃ reply, s.store.edit env now call = .ok (reply, s.store)
  unchanged : ∀ {reply after}, s.store.edit env now call = .ok (reply, after) →
    after = s.store ∧ reply.effect = none ∧ reply.notice = none
  same : answer.canonicalBytes = call.request.canonicalBytes ∧ answer.action = call.action →
    ∀ {reply after}, s.store.edit env now call = .ok (reply, after) →
      reply.receipt.state = answer.state ∧ reply.receipt.refusal = answer.refusal
  other : ¬ (answer.canonicalBytes = call.request.canonicalBytes ∧ answer.action = call.action) →
    ∀ {reply after}, s.store.edit env now call = .ok (reply, after) →
      reply.receipt.state = .refused ∧ reply.receipt.refusal = some "envelope_mismatch"

/-- A refused edit writes its receipt only, or it is a promotion that settles one delivery. -/
def KeepsTables (env : Envelopes) (s : EditState) (call : EditCall) (now : Int) (reply : EditReply)
    (after : Store) : Prop :=
  (reply.notice = none ∧ ∃ queueEdits, after = { s.store with queueEdits }) ∨
    ∃ notice settled queueEdits, reply.notice = some notice ∧
      reply.receipt.refusal = some "not_held" ∧ call.Settles env s.store now notice settled ∧
        after = { settled with queueEdits }

theorem Sound.repeats (hgranted : call.granted = true) (hanswer : answer ∈ s.answers)
    (hkey : answer.key = call.key) : s.Repeats env call now answer := by
  obtain ⟨hscope, hid, -⟩ := h.valid answer hanswer
  obtain ⟨row, hfound, rfl⟩ := h.receipt_of_answer hanswer hkey
  obtain ⟨hkeyScope, hkeyId⟩ := Prod.mk.inj hkey
  have hreplays : ∀ {reply after}, s.store.edit env now call = .ok (reply, after) →
      reply.effect.isSome = false ∧ reply.notice = none ∧ after = s.store ∧
        s.store.Replays call.request call.action reply.receipt row := by
    intro reply after hreturn
    rcases Store.edit_result hgranted hreturn with
      ⟨heffect, hnotice, hstore, previous, hreplays⟩ | ⟨hdecides, -⟩
    · cases hfound.symm.trans hreplays.found
      exact ⟨heffect, hnotice, hstore, hreplays⟩
    · rw [hdecides.free] at hfound
      cases hfound
  constructor
  · intro hbytes hclock
    exact Store.edit_replays hgranted hfound (hkeyScope ▸ hscope) (hkeyId ▸ hid) hbytes hclock
  · intro reply after hreturn
    obtain ⟨heffect, hnotice, hstore, -⟩ := hreplays hreturn
    exact ⟨hstore, by simpa using heffect, hnotice⟩
  · exact fun hsame _ _ hreturn => (hreplays hreturn).2.2.2.same hsame
  · exact fun hother _ _ hreturn => (hreplays hreturn).2.2.2.other hother

end

end EditState

/-- Between two purges of its receipt, an identifier has its effect at most once. A later call
under it is answered as the first one was, or refused when it is another call; a refused edit
leaves at most a settlement behind, and a call that fails leaves nothing. -/
theorem queue_edits_happen_once (env : Envelopes) {store : Store} {s : EditState}
    {events : List EditEvent} (hempty : store.queueEdits = .empty)
    (hrun : Run (EditState.step env) EditEvent.Admitted (.start store) events s) :
    (s.effects.map Prod.fst).Nodup ∧
      (∀ answer ∈ s.answers, validateCanonicalBytes answer.canonicalBytes = .ok ()) ∧
      ∀ call now,
        (call.granted = true → ∀ answer ∈ s.answers, answer.key = call.key →
          s.Repeats env call now answer) ∧
        (∀ reply after, s.store.edit env now call = .ok (reply, after) →
          (call.granted = false → after = s.store ∧ reply.receipt.state = .refused ∧
            reply.effect = none ∧ reply.notice = none) ∧
          (call.granted = true → (∀ answer ∈ s.answers, answer.key ≠ call.key) →
            reply.receipt.state = .refused → s.KeepsTables env call now reply after)) ∧
        ∀ error, s.store.edit env now call = .error error → s.step env (.edit call now) = s := by
  have hsound : s.Sound := by
    apply hrun.invariant EditState.Sound
    · exact fun _ _ hsound hadmitted => hsound.step hadmitted
    constructor
    · exact nofun
    · intro answer
      simp [EditState.start, hempty]
    · exact nofun
    · exact nodup_nil
  refine ⟨hsound.once, fun answer hanswer => (hsound.valid answer hanswer).2.2, fun call now =>
    ⟨?_, ?_, ?_⟩⟩
  · exact fun hgranted answer hanswer hkey => hsound.repeats hgranted hanswer hkey
  · intro reply after hreturn
    constructor
    · exact fun hgranted => Store.edit_of_not_granted hgranted hreturn
    intro hgranted hfirst hrefused
    rcases Store.edit_result hgranted hreturn with ⟨-, -, -, _, hreplays⟩ | ⟨hdecides, -⟩
    · have hfree := hsound.receipt_eq_none.mpr hfirst
      rw [hreplays.found] at hfree
      cases hfree
    · rcases hdecides.refused hrefused with hkept | ⟨notice, settled, queueEdits, hnotice, -,
        hreason, hsettles, hafter⟩
      · exact .inl hkept
      · exact .inr ⟨notice, settled, queueEdits, hnotice, hreason, hsettles, hafter⟩
  · intro error herror
    simp only [EditState.step, herror]

def cancelGreeting : EditCall :=
  .cancel ⟨"client-000000000000000001", "r1", [1], "alice"⟩ "bob" "m1" fun _ => "event"

def cancelledGreeting : List EditEvent :=
  let key : IdempotencyKey := ⟨"client-000000000000000001", .send, "d1"⟩
  [.op (.reserve key sampleBytes 90 1000 90 0), .op (.beginSendDelivery key
      ⟨⟨"d1", "i1", 1, 5000, sampleBytes⟩, none, none, none, none, some "bob"⟩ 90),
    .edit cancelGreeting 100, .crash]

/-- Asked again, the cancellation is answered as before, and nothing is done twice. -/
theorem repeated_cancel_is_answered_again :
    ∃ s reply, Run (EditState.step sampleEnvelopes) EditEvent.Admitted (.start .init)
        cancelledGreeting s ∧
      s.effects = [(cancelGreeting.key, 604900)] ∧
      s.store.edit sampleEnvelopes 200 cancelGreeting = .ok (reply, s.store) ∧
      reply.receipt.state = .applied ∧ reply.effect = none := by
  have hrun : Run (EditState.step sampleEnvelopes) EditEvent.Admitted (.start .init)
      cancelledGreeting _ := Run.of_allows (by decide +kernel)
  have hanswer : cancelGreeting.request.answer .cancel 100 .applied none ∈
      (cancelledGreeting.foldl (EditState.step sampleEnvelopes) (.start .init)).answers := by
    decide +kernel
  obtain ⟨-, -, hcalls⟩ := queue_edits_happen_once sampleEnvelopes rfl hrun
  have hrepeats := (hcalls cancelGreeting 200).1 rfl _ hanswer rfl
  obtain ⟨reply, hreturn⟩ := hrepeats.returns rfl rfl
  refine ⟨_, reply, hrun, by decide +kernel, hreturn, ?_, (hrepeats.unchanged hreturn).2.1⟩
  exact (hrepeats.same ⟨rfl, rfl⟩ hreturn).1

end Bridget.Idempotency
