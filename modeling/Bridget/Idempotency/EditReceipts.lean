import Bridget.Idempotency.Operations

/-!
# Receipts of queue edits

The first call under a request identifier decides, and its receipt is what later calls read
until it is purged. No other operation of the store writes receipts, and what a call can do is
said once, for all three edits.
-/

namespace Bridget.Idempotency

open Foundation Option

def Op.purgesAt : Op → Option Int
  | .purgeExpired now => some now
  | _ => none

namespace Store

variable {env : Envelopes} {s s' : Store}

theorem exec_queueEdits {op : Op} (hedit : op.isEdit = false) (hpurge : op.purgesAt = none)
    (h : s.exec env op = .ok s') : s'.queueEdits = s.queueEdits := by
  cases op with
  | purgeExpired => cases hpurge
  | reserve =>
    obtain ⟨_, hreturn⟩ := map_snd_eq_ok.mp h
    obtain rfl | ⟨_, _, -, rfl⟩ := reserve_cases hreturn
    · rfl
    · rfl
  | beginSendDelivery =>
    obtain ⟨_, _, _, -, -, -, -, hsame⟩ := beginSendDeliveryWithGuidance_spec h
    exact hsame.queueEdits
  | rejectPrepared =>
    obtain ⟨_, _, -, -, rfl⟩ := rejectPrepared_updates h
    rfl
  | transition =>
    obtain ⟨_, -, rfl⟩ := transition_updates h
    rfl
  | finalize =>
    obtain ⟨_, -, rfl⟩ := finalize_updates h
    rfl
  | purgeExpiredSends =>
    cases h
    rfl
  | _ =>
    obtain ⟨_, hwrites, -, hkept⟩ := exec_writes h rfl
    exact (hkept hedit).trans hwrites.queueEdits

theorem step_queueEdits (env : Envelopes) (s : Store) {op : Op} (hedit : op.isEdit = false) :
    (s.step env op).queueEdits = match op.purgesAt with
      | some now => s.queueEdits.delete fun e => e.expiresAt < now
      | none => s.queueEdits := by
  cases hpurge : op.purgesAt with
  | some =>
    cases op with
    | purgeExpired =>
      cases hpurge
      rfl
    | _ => cases hpurge
  | none =>
    unfold step
    split
    next h => exact exec_queueEdits hedit hpurge h
    · rfl

end Store

structure EditAnswer where
  (issuerScope requestId : String)
  canonicalBytes : Bytes
  action : QueueEditAction
  state : QueueEditState
  refusal : Option String
  expiresAt : Int
  deriving DecidableEq

def QueueEditRow.answer (row : QueueEditRow) : EditAnswer := { row with }

def QueueEditRequest.answer (request : QueueEditRequest) (action : QueueEditAction) (now : Int)
    (state : QueueEditState) (refusal : Option String) : EditAnswer :=
  { request with action, state, refusal, expiresAt := now + queueEditRetentionSecs }

/-- What `queue_edit_once` checks of a request before it looks for a receipt. -/
def EditAnswer.Valid (answer : EditAnswer) : Prop :=
  validateIssuerScope answer.issuerScope = .ok () ∧
    validateIdempotencyKey answer.requestId = .ok () ∧
    validateCanonicalBytes answer.canonicalBytes = .ok ()

namespace Store

variable {s s' : Store}

def receipt (s : Store) (request : QueueEditRequest) : Option QueueEditRow :=
  s.queueEdits.find? fun e => e.issuerScope = request.issuerScope ∧ e.requestId = request.requestId

theorem pinsKey_receipt (request : QueueEditRequest) :
    Table.PinsKey fun e : QueueEditRow =>
      decide (e.issuerScope = request.issuerScope ∧ e.requestId = request.requestId) := by
  intro _ _ ha hb
  simp only [test_iff] at ha hb
  exact ⟨ha.1.trans hb.1.symm, ha.2.trans hb.2.symm⟩

/-- An identifier that was used before: the call reads the receipt and does nothing. -/
structure Replays (s : Store) (request : QueueEditRequest) (action : QueueEditAction)
    (receipt : QueueEditReceipt) (previous : QueueEditRow) : Prop where
  found : s.receipt request = some previous
  same : previous.canonicalBytes = request.canonicalBytes ∧ previous.action = action →
    receipt.state = previous.state ∧ receipt.refusal = previous.refusal
  other : ¬ (previous.canonicalBytes = request.canonicalBytes ∧ previous.action = action) →
    receipt.state = .refused ∧ receipt.refusal = some "envelope_mismatch"

/-- A new identifier: the body runs, its decision is recorded, and of what a refused body wrote
at most a settlement stays. -/
structure Decides (s : Store) (request : QueueEditRequest) (action : QueueEditAction) (now : Int)
    (settles : OrphanedDeliveryNotice → Store → Prop) (receipt : QueueEditReceipt)
    (notice : Option OrphanedDeliveryNotice) (s' : Store) : Prop where
  free : s.receipt request = none
  recorded : ∃ row : QueueEditRow, s.queueEdits.insert row = .ok s'.queueEdits ∧
    row.answer = request.answer action now receipt.state receipt.refusal ∧ row.answer.Valid
  refused : receipt.state = .refused → (notice = none ∧ ∃ queueEdits, s' = { s with queueEdits }) ∨
      ∃ sent settled queueEdits, notice = some sent ∧ action = .promote ∧
        receipt.refusal = some "not_held" ∧ settles sent settled ∧ s' = { settled with queueEdits }

/-- The two ways in which a call of `queue_edit_once` ends. -/
def EditResult (s : Store) (request : QueueEditRequest) (action : QueueEditAction) (now : Int)
    (settles : OrphanedDeliveryNotice → Store → Prop) (receipt : QueueEditReceipt) (effect : Bool)
    (notice : Option OrphanedDeliveryNotice) (s' : Store) : Prop :=
  (effect = false ∧ notice = none ∧ s' = s ∧
    ∃ previous, Replays s request action receipt previous) ∨
  (Decides s request action now settles receipt notice s' ∧ (action ≠ .promote → notice = none))

/-- The body runs only when there is no receipt, and what it wrote stays unless it refuses
without a notice. -/
theorem queueEditOnce_result {T : Type} {request : QueueEditRequest} {action : QueueEditAction}
    {now : Int} {apply : Store → Result (QueueEditDecision T × Store)}
    {receipt : QueueEditReceipt} {effect : Option T} {notice : Option OrphanedDeliveryNotice}
    {settles : OrphanedDeliveryNotice → Store → Prop}
    (hkept : ∀ outcome edited, apply s = .ok (outcome, edited) → edited.queueEdits = s.queueEdits)
    (hsettles : action = .promote → ∀ outcome edited notice, apply s = .ok (outcome, edited) →
      outcome.decision = .error ("not_held", some notice) → settles notice edited)
    (h : s.queueEditOnce request action now apply = .ok ((receipt, effect, notice), s')) :
    EditResult s request action now settles receipt effect.isSome notice s' := by
  simp only [queueEditOnce, ok_iff] at h
  obtain ⟨⟨⟩, hscope, ⟨⟩, hid, ⟨⟩, hbytes, expiresAt, hexpires, h⟩ := h
  have hvalid := And.intro hscope (And.intro hid hbytes)
  obtain rfl : expiresAt = now + queueEditRetentionSecs := (checkedAdd_eq_some.mp hexpires).2.2.symm
  split at h
  next previous hfound =>
    split at h
    next hother =>
      cases h
      refine .inl ⟨rfl, rfl, rfl, previous, hfound, fun hsame => ?_, fun _ => ⟨rfl, rfl⟩⟩
      rcases hother with hbytes | haction
      · exact absurd hsame.1 hbytes
      · exact absurd hsame.2 haction
    next hsame =>
      cases h
      refine .inl ⟨rfl, rfl, rfl, previous, hfound, fun _ => ⟨rfl, rfl⟩, fun hother => ?_⟩
      obtain ⟨hbytes, haction⟩ := not_or.mp hsame
      exact absurd ⟨not_not.mp hbytes, not_not.mp haction⟩ hother
  next hfree =>
    simp only [ok_iff, pair_iff, sql_eq_ok] at h
    obtain ⟨outcome, edited, happly, state, refusal, effect, notice, decided, hdecided, queueEdits,
      hinsert, ⟨rfl, rfl, rfl⟩, rfl⟩ := h
    unfold settleDecision at hdecided
    split at hdecided
    · cases hdecided
      rw [hkept outcome _ happly] at hinsert
      exact .inr ⟨⟨hfree, ⟨_, hinsert, rfl, hvalid⟩, by simp⟩, fun _ => rfl⟩
    · cases hdecided
      exact .inr ⟨⟨hfree, ⟨_, hinsert, rfl, hvalid⟩, fun _ => .inl ⟨rfl, queueEdits, rfl⟩⟩,
        fun _ => rfl⟩
    next notice hdecision =>
      simp only [ok_iff, pair_iff] at hdecided
      obtain ⟨-, ⟨haction, rfl, -⟩, ⟨rfl, rfl, rfl, rfl⟩, rfl⟩ := hdecided
      rw [hkept outcome _ happly] at hinsert
      refine .inr ⟨⟨hfree, ⟨_, hinsert, rfl, hvalid⟩, fun _ => .inr ?_⟩,
        fun hnot => absurd haction hnot⟩
      exact ⟨notice, _, queueEdits, rfl, haction, rfl,
        hsettles haction outcome _ notice happly hdecision, rfl⟩

end Store

inductive EditCall where
  | promote (request : QueueEditRequest) (recipientAgent messageId : String)
      (facts : GuidanceFacts) (refusalCode : GuidanceRefusal → String) (eventIds : Nat → String)
  | reorder (request : QueueEditRequest) (recipientAgent messageId : String)
      (beforeMessageId : Option String)
  | cancel (request : QueueEditRequest) (recipientAgent messageId : String)
      (eventIds : Nat → String)

def EditCall.request : EditCall → QueueEditRequest
  | .promote request .. | .reorder request .. | .cancel request .. => request

def EditCall.action : EditCall → QueueEditAction
  | .promote .. => .promote
  | .reorder .. => .reorder
  | .cancel .. => .cancel

/-- Whether `queue_edit_once` is called: a promotion looks at the rights of its actor first. -/
def EditCall.granted : EditCall → Bool
  | .promote _ _ _ facts _ _ => (errorOf (authorize { facts with action := .queuePromote })).isNone
  | .reorder .. | .cancel .. => true

inductive EditEffect where
  | promoted (delivery : SendDelivery)
  | reordered
  | cancelled (notice : OrphanedDeliveryNotice)

structure EditReply where
  receipt : QueueEditReceipt
  effect : Option EditEffect
  notice : Option OrphanedDeliveryNotice

def Store.edit (env : Envelopes) (s : Store) (now : Int) :
    EditCall → Result (EditReply × Store)
  | .promote request agent messageId facts refusalCode eventIds =>
    (s.applyPromote env request agent messageId facts refusalCode now eventIds).map
      fun ((receipt, delivery, notice), s) => (⟨receipt, delivery.map .promoted, notice⟩, s)
  | .reorder request agent messageId before =>
    (s.applyReorder env request agent messageId before now).map
      fun ((receipt, moved), s) => (⟨receipt, moved.map fun _ => .reordered, none⟩, s)
  | .cancel request agent messageId eventIds =>
    (s.applyCancel env request agent messageId now eventIds).map
      fun ((receipt, notice), s) => (⟨receipt, notice.map .cancelled, none⟩, s)

/-- The message that a promotion names is held, but it has expired or its request is closed: the
promotion takes this one delivery out of the queue. -/
def EditCall.Settles (env : Envelopes) (s : Store) (now : Int) (call : EditCall)
    (notice : OrphanedDeliveryNotice) (settled : Store) : Prop :=
  ∃ request agent messageId facts refusalCode eventIds,
    call = .promote request agent messageId facts refusalCode eventIds ∧
    ∃ d r bytes message reason, s.uniqueHeldPublicId env agent messageId = .ok (some d.deliveryId) ∧
      s.heldWithRecord d.deliveryId = some (d, r) ∧ d.messageBytes = some bytes ∧
      env.decode bytes = some message ∧ s.settlementReason d r message now = some reason ∧
      s.settleHeldInTransaction env d.deliveryId reason now eventIds = .ok (some notice, settled)

namespace Store

variable {env : Envelopes} {s s' : Store} {refusalCode : GuidanceRefusal → String} {now : Int}
  {eventIds : Nat → String}

variable {request : QueueEditRequest} {action : QueueEditAction}
  {settles : OrphanedDeliveryNotice → Store → Prop} {receipt : QueueEditReceipt}
  {notice : Option OrphanedDeliveryNotice} {call : EditCall} {reply : EditReply}
  {previous : QueueEditRow}

theorem applyPromote_result {agent messageId : String} {facts : GuidanceFacts}
    {delivery : Option SendDelivery}
    (hgranted : (EditCall.promote request agent messageId facts refusalCode eventIds).granted =
      true) (h : s.applyPromote env request agent messageId facts refusalCode now eventIds =
      .ok ((receipt, delivery, notice), s')) :
    EditResult s request .promote now
      ((EditCall.promote request agent messageId facts refusalCode eventIds).Settles env s now)
      receipt delivery.isSome notice s' := by
  obtain ⟨_, hrefused, -⟩ | ⟨-, _, hedit, hbody⟩ := applyPromote_calls h
  · simp [EditCall.granted, hrefused, errorOf] at hgranted
  refine queueEditOnce_result ?_ ?_ hedit
  · intro outcome edited happly
    obtain ⟨rfl, -⟩ | ⟨_, hfound, hpromote⟩ := hbody outcome edited happly
    · rfl
    · exact (promoteHeld_writes hpromote request facts hfound).queueEdits
  intro _ outcome edited notice happly hdecision
  obtain ⟨-, hrefused⟩ | ⟨_, hfound, hpromote⟩ := hbody outcome edited happly
  · cases hrefused.symm.trans hdecision
  -- a promotion refuses with a notice only when it has closed the delivery
  simp only [promoteHeld, ok_iff, pair_iff] at hpromote
  obtain ⟨d, r, hheld, bytes, hbytes, message, hmessage, hpromote⟩ := hpromote
  split at hpromote
  next cause hcause =>
    simp only [ok_iff, pair_iff] at hpromote
    obtain ⟨_, _, hsettle, _, rfl, rfl, rfl⟩ := hpromote
    cases hdecision
    obtain rfl := (heldWithRecord_eq_some hheld).2.1
    exact ⟨request, agent, messageId, facts, refusalCode, eventIds, rfl, d, r, bytes, message,
      cause, hfound, hheld, hbytes, hmessage, hcause, hsettle⟩
  · simp only [bind_eq_ok] at hpromote
    obtain ⟨_, -, hpromote⟩ := hpromote
    split at hpromote
    · cases hpromote
      cases (Prod.mk.inj (Except.error.inj hdecision)).2
    · simp only [ok_iff, sql_eq_ok, pair_iff] at hpromote
      obtain ⟨_, _, -, -, -, rfl, -⟩ := hpromote
      cases hdecision

/-- An edit other than a promotion comes with no notice of its own. -/
theorem EditResult.of_writes {T : Type} {op : QueueOp}
    {apply : Store → Result (QueueEditDecision T × Store)} {effect : Option T}
    (haction : action ≠ .promote)
    (h : s.queueEditOnce request action now apply = .ok ((receipt, effect, notice), s'))
    (hbody : ∀ outcome edited, apply s = .ok (outcome, edited) → Writes op s edited) :
    EditResult s request action now settles receipt effect.isSome none s' := by
  have hresult : EditResult s request action now settles receipt effect.isSome notice s' :=
    queueEditOnce_result (fun outcome edited happly => (hbody outcome edited happly).queueEdits)
      (fun hpromote => absurd hpromote haction) h
  have hnone : notice = none := by
    rcases hresult with ⟨-, hnone, -⟩ | ⟨-, hnone⟩
    · exact hnone
    · exact hnone haction
  exact hnone ▸ hresult

theorem edit_result (hgranted : call.granted = true) (h : s.edit env now call = .ok (reply, s')) :
    EditResult s call.request call.action now (call.Settles env s now) reply.receipt
      reply.effect.isSome reply.notice s' := by
  cases call with
  | promote =>
    obtain ⟨⟨⟨_, _, _⟩, _⟩, happly, hreply⟩ := map_eq_ok.mp h
    cases hreply
    rw [isSome_map]
    exact applyPromote_result hgranted happly
  | reorder =>
    obtain ⟨⟨⟨_, _⟩, _⟩, happly, hreply⟩ := map_eq_ok.mp h
    cases hreply
    obtain ⟨_, _, hedit, hbody⟩ := applyReorder_calls happly
    rw [isSome_map]
    exact .of_writes nofun hedit hbody
  | cancel =>
    obtain ⟨⟨⟨_, notice⟩, _⟩, happly, hreply⟩ := map_eq_ok.mp h
    cases hreply
    obtain ⟨_, _, hedit, hbody⟩ := applyCancel_calls happly
    rw [isSome_map]
    exact .of_writes nofun hedit hbody

/-- A call whose identifier has a receipt returns, unless it fails the checks before. -/
theorem queueEditOnce_replays {T : Type} {apply : Store → Result (QueueEditDecision T × Store)}
    (hfound : s.receipt request = some previous)
    (hscope : validateIssuerScope request.issuerScope = .ok ())
    (hid : validateIdempotencyKey request.requestId = .ok ())
    (hbytes : validateCanonicalBytes request.canonicalBytes = .ok ())
    (hclock : (checkedAdd now queueEditRetentionSecs).isSome = true) :
    ∃ reply, s.queueEditOnce request action now apply = .ok (reply, s) := by
  obtain ⟨_, hexpires⟩ := isSome_iff_exists.mp hclock
  unfold receipt at hfound
  simp only [queueEditOnce, hscope, hid, hbytes, hexpires, hfound, orError, ok_bind]
  split
  · exact ⟨_, rfl⟩
  · exact ⟨_, rfl⟩

theorem edit_replays (hgranted : call.granted = true)
    (hfound : s.receipt call.request = some previous)
    (hscope : validateIssuerScope call.request.issuerScope = .ok ())
    (hid : validateIdempotencyKey call.request.requestId = .ok ())
    (hbytes : validateCanonicalBytes call.request.canonicalBytes = .ok ())
    (hclock : (checkedAdd now queueEditRetentionSecs).isSome = true) :
    ∃ reply, s.edit env now call = .ok (reply, s) := by
  cases call with
  | promote =>
    unfold edit applyPromote
    dsimp only
    split
    next hrefused => simp [EditCall.granted, hrefused, errorOf] at hgranted
    · simp only [EditCall.request] at hfound hscope hid hbytes
      obtain ⟨_, hreply⟩ := queueEditOnce_replays hfound hscope hid hbytes hclock
      rw [hreply]
      exact ⟨_, rfl⟩
  | reorder | cancel =>
    simp only [EditCall.request] at hfound hscope hid hbytes
    obtain ⟨_, hreply⟩ := queueEditOnce_replays hfound hscope hid hbytes hclock
    unfold edit applyReorder applyCancel
    dsimp only
    rw [hreply]
    exact ⟨_, rfl⟩

/-- A promotion without the rights for it is refused before any table is read. -/
theorem edit_of_not_granted (hgranted : call.granted = false)
    (h : s.edit env now call = .ok (reply, s')) :
    s' = s ∧ reply.receipt.state = .refused ∧ reply.effect = none ∧ reply.notice = none := by
  cases call with
  | promote =>
    obtain ⟨⟨⟨_, _, _⟩, _⟩, happly, hreply⟩ := map_eq_ok.mp h
    cases hreply
    obtain ⟨_, -, hstate, hnone, rfl⟩ | ⟨⟨_, hrights⟩, -⟩ := applyPromote_calls happly
    · cases hnone
      exact ⟨rfl, hstate, rfl, rfl⟩
    · simp [EditCall.granted, hrights, errorOf] at hgranted
  | reorder | cancel => cases hgranted

end Store

end Bridget.Idempotency
